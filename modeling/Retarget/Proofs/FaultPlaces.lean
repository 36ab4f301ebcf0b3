import Retarget.Proofs.Partition

/-!
# Where the faults of a text are

A text that cannot be scanned is at fault where the scanner, going from longest match to longest
match, comes to a character that begins none. A text that can be scanned but spells no type is at
fault at the first token that rules out every type: what is before it can still be completed, by a
name if one is wanted and a bracket for each application that is open. If no token does that, the
fault is at the end, and the tokens are only the beginning of a type.

## Key results

- `Token.exists_stray_of_scanFrom`: where a text cannot be scanned
- `Ty.Progress.run_completion`: every state of the reader can be completed
- `Ty.exists_run_iff`: the reader goes on exactly as long as some type begins with the tokens
- `Ty.isSpelling_of_spells`: what the grammar derives from scanned names is spelt by a text
- `Ty.IsFaultPlace`: the place of a fault
-/

namespace Retarget

namespace Token

/-! ## Longest matches -/

/-- What the patterns of the scanner match: blanks, a mark, or a dotted name. -/
inductive Matches : List Char → Prop where
  | blanks {cs : List Char} (hne : cs ≠ []) (h : ∀ c ∈ cs, isBlank c = true) : Matches cs
  | mark {c : Char} {t : Token} (h : IsMark c t) : Matches [c]
  | name {cs : List Char} (h : Dotted cs) : Matches cs

/-- Whether some characters are the longest match at the beginning of a text. -/
structure LongestMatch (cs text : List Char) : Prop where
  isMatch : Matches cs
  isPrefix : cs <+: text
  longest : ∀ ds, Matches ds → ds <+: text → ds.length ≤ cs.length

/-- The places of a text that are reached from longest match to longest match. A place is given by
    the text from there on. -/
inductive Reaches : List Char → List Char → Prop where
  | here (text : List Char) : Reaches text text
  | further {cs rest place : List Char} (h : LongestMatch cs (cs ++ rest))
      (hrest : Reaches rest place) : Reaches (cs ++ rest) place

/-- The first character tells which pattern can match. -/
theorem Matches.head {c : Char} {cs : List Char} (h : Matches (c :: cs)) :
    (∀ d ∈ c :: cs, isBlank d = true) ∨ (cs = [] ∧ ∃ t, IsMark c t) ∨
      (isNameStart c = true ∧ Dotted (c :: cs)) := by
  -- A pattern shows in the first character of what it matches.
  cases h with
  | blanks _ h => exact .inl h
  | mark h => exact .inr (.inl ⟨rfl, _, h⟩)
  | name h =>
    obtain ⟨d, ds, hcs, hd⟩ := h.exists_cons
    obtain rfl := (List.cons.inj hcs).1
    exact .inr (.inr ⟨hd, h⟩)

/-- What matches at the beginning of a text has its first character. -/
theorem Matches.exists_cons_of_isPrefix {c : Char} {ds text : List Char} (h : Matches ds)
    (hbegins : ds <+: c :: text) : ∃ ds', ds = c :: ds' := by
  rcases List.prefix_cons_iff.mp hbegins with rfl | ⟨ds', rfl, -⟩
  · cases h with
    | blanks hne _ => exact absurd rfl hne
    | name h =>
      obtain ⟨_, _, hcs, -⟩ := h.exists_cons
      cases hcs
  · exact ⟨ds', rfl⟩

/-- What starts a name is no mark. -/
theorem not_isMark_of_isNameStart {c : Char} (h : isNameStart c = true) (t : Token) :
    ¬ IsMark c t := by
  intro hmark
  rw [not_isNameStart_of_not_isNamePart hmark.not_isNamePart] at h
  cases h

/-- What begins with a blank matches only as a run of blanks. -/
theorem Matches.of_isBlank {c : Char} {cs : List Char} (h : Matches (c :: cs))
    (hc : isBlank c = true) : ∀ d ∈ c :: cs, isBlank d = true := by
  rcases h.head with hall | ⟨rfl, -⟩ | ⟨hname, -⟩
  · exact hall
  · simpa using hc
  · rw [not_isBlank_of_isNameStart hname] at hc
    cases hc

/-- What begins with a mark matches only as that mark. -/
theorem Matches.of_isMark {c : Char} {cs : List Char} {t : Token} (h : Matches (c :: cs))
    (hc : IsMark c t) : cs = [] := by
  rcases h.head with hall | ⟨hcs, -⟩ | ⟨hname, -⟩
  · have hblank := hall c List.mem_cons_self
    rw [hc.not_isBlank] at hblank
    cases hblank
  · exact hcs
  · exact absurd hc (not_isMark_of_isNameStart hname t)

/-- What begins with the start of a name matches only as a name. -/
theorem Matches.of_isNameStart {c : Char} {cs : List Char} (h : Matches (c :: cs))
    (hc : isNameStart c = true) : Dotted (c :: cs) := by
  rcases h.head with hall | ⟨-, t, hmark⟩ | ⟨-, hname⟩
  · have hblank := hall c List.mem_cons_self
    rw [not_isBlank_of_isNameStart hc] at hblank
    cases hblank
  · exact absurd hmark (not_isMark_of_isNameStart hc t)
  · exact hname

/-- A run of blanks is the longest match at its place. -/
theorem longestMatch_blanks {cs rest : List Char} (hne : cs ≠ [])
    (hblank : ∀ c ∈ cs, isBlank c = true) (hrest : ∀ c ∈ rest.head?, isBlank c = false) :
    LongestMatch cs (cs ++ rest) := by
  refine ⟨.blanks hne hblank, List.prefix_append cs rest, fun ds hds hbegins => ?_⟩
  obtain ⟨c, cs, rfl⟩ := List.exists_cons_of_ne_nil hne
  obtain ⟨ds, rfl⟩ := hds.exists_cons_of_isPrefix hbegins
  have hall : ∀ d ∈ c :: ds, isBlank d = true := hds.of_isBlank (hblank c List.mem_cons_self)
  obtain ⟨x, hx⟩ := hbegins
  rcases List.append_eq_append_iff.mp hx with ⟨z, hz, -⟩ | ⟨z, hz, hrestz⟩
  · rw [hz]
    simp
  · -- Any further blank would be the first character behind the run.
    cases z with
    | nil => simp [hz]
    | cons d z =>
      have hd := hrest d (by rw [hrestz]; rfl)
      rw [hall d (by rw [hz]; simp)] at hd
      cases hd

/-- What a token stands for is the longest match at its place. -/
theorem Lexeme.longestMatch {t : Token} {cs rest : List Char} (h : Lexeme t cs rest) :
    LongestMatch cs (cs ++ rest) := by
  cases h with
  | mark hmark =>
    refine ⟨.mark hmark, List.prefix_append _ rest, fun ds hds hbegins => ?_⟩
    obtain ⟨ds, rfl⟩ := hds.exists_cons_of_isPrefix hbegins
    obtain rfl : ds = [] := hds.of_isMark hmark
    exact Nat.le_refl _
  | name hcs hend =>
    refine ⟨.name hcs, List.prefix_append cs rest, fun ds hds hbegins => ?_⟩
    obtain ⟨c, cs, rfl, hc⟩ := hcs.exists_cons
    obtain ⟨ds, rfl⟩ := hds.exists_cons_of_isPrefix hbegins
    -- No other pattern matches where a name begins, and no name is longer than one that has ended.
    exact ((hds.of_isNameStart hc).isPrefix_of_ended hend hbegins).length_le

/-- A text that cannot be scanned has a character that begins no match, and that is reached from
    longest match to longest match. This character is the fault. -/
theorem exists_stray_of_scanFrom {pos : Nat} {text : List Char} {e : SyntaxError}
    (h : scanFrom .between pos text = .error e) :
    ∃ before c after, text = before ++ c :: after ∧ Reaches text (c :: after) ∧
      (∀ cs, Matches cs → ¬ cs <+: c :: after) ∧ e = strayCharacter c (pos + byteSize before) := by
  -- Going from cut to cut is going from longest match to longest match.
  induction text using cutInduction generalizing pos with
  | nil => cases h
  | blanks cs rest hne hblank hrest ih =>
    rw [scanFrom_blanks hblank] at h
    obtain ⟨before, c, after, rfl, hreaches, hstray, he⟩ := ih h
    refine ⟨cs ++ before, c, after, by simp, ?_, hstray, by rw [he, byteSize_append, Nat.add_assoc]⟩
    exact .further (longestMatch_blanks hne hblank hrest) hreaches
  | lexeme t cs rest hlexeme ih =>
    rw [scanFrom_lexeme hlexeme] at h
    cases hrest : scanFrom .between (pos + byteSize cs) rest with
    | ok tokens =>
      rw [hrest] at h
      cases h
    | error e' =>
      rw [hrest] at h
      obtain rfl : e' = e := Except.error.inj h
      obtain ⟨before, c, after, rfl, hreaches, hstray, he⟩ := ih hrest
      refine ⟨cs ++ before, c, after, by simp, ?_, hstray,
        by rw [he, byteSize_append, Nat.add_assoc]⟩
      exact .further hlexeme.longestMatch hreaches
  | stray c cs hblank hname hmark =>
    -- No pattern has a match that begins with this character.
    rw [scanFrom_stray hblank hname hmark] at h
    refine ⟨[], c, cs, rfl, .here _, fun ds hds hbegins => ?_, (Except.error.inj h).symm⟩
    obtain ⟨ds, rfl⟩ := hds.exists_cons_of_isPrefix hbegins
    rcases hds.head with hall | ⟨-, t, hc⟩ | ⟨hstart, -⟩
    · have hc := hall c List.mem_cons_self
      rw [hblank] at hc
      cases hc
    · rw [ofMark?_eq_some.mpr hc] at hmark
      cases hmark
    · rw [hname] at hstart
      cases hstart

end Token

namespace Ty

/-! ## Completions -/

namespace Progress

/-- What makes a type of what has been read: a name if one is wanted, and a bracket for each
    application that is open. -/
def completion : Progress → List Token
  | ⟨stack, .wanted⟩ => .ident "T" :: List.replicate stack.length .gt
  | ⟨stack, _⟩ => List.replicate stack.length .gt

/-- After a complete type, brackets close all applications. -/
theorem run_closing {stack : List OpenGeneric} {f : Focus} {t : Ty} (h : f.type? = some t) :
    ∃ u, (run ⟨stack, f⟩ (List.replicate stack.length .gt) >>= complete) = .ok u := by
  -- Induction on the open applications, the innermost of which is closed first.
  induction stack generalizing f t with
  | nil =>
    refine ⟨t, ?_⟩
    show complete ⟨[], f⟩ = .ok t
    rw [complete, h]
  | cons g stack ih =>
    have hstep : advance ⟨g :: stack, f⟩ .gt =
        .ok ⟨stack, .applied (.generic g.definition (t :: g.args).reverse)⟩ :=
      advance_separator h (.inr rfl)
    obtain ⟨u, hu⟩ := ih (f := .applied (.generic g.definition (t :: g.args).reverse)) rfl
    refine ⟨u, ?_⟩
    rw [List.length_cons, List.replicate_succ, run_of_advance hstep, hu]

/-- Every state can be completed. -/
theorem run_completion (p : Progress) : ∃ t, (p.run p.completion >>= complete) = .ok t := by
  obtain ⟨stack, f⟩ := p
  -- If a type is wanted, a name is given, and is then the complete type.
  cases f with
  | wanted => exact run_closing (f := .name "T") rfl
  | name n => exact run_closing rfl
  | applied t => exact run_closing rfl
  | marked t => exact run_closing rfl

/-- Only what is no type yet needs to be completed. -/
theorem completion_ne_nil {p : Progress} {cause : SyntaxError.Cause}
    (h : p.complete = .error cause) : p.completion ≠ [] := by
  obtain ⟨stack, f⟩ := p
  cases f with
  | wanted => exact List.cons_ne_nil _ _
  | _ =>
    cases stack with
    | nil => cases h
    | cons g stack => exact List.cons_ne_nil _ _

/-- What the reader has read so far and its completion spell a type. -/
theorem spells_completion {p : Progress} {ts : List Token} (h : start.run ts = .ok p) :
    ∃ t, Spells (ts ++ p.completion) t := by
  obtain ⟨t, ht⟩ := p.run_completion
  refine ⟨t, ofSpelling_eq_ok.mp ?_⟩
  rw [ofSpelling, run_of_run h, ht]

end Progress

/-- The reader goes on exactly as long as some type begins with the tokens. -/
theorem exists_run_iff {ts : List Token} :
    (∃ p, Progress.start.run ts = .ok p) ↔ ∃ us t, Spells (ts ++ us) t := by
  constructor
  · -- What has been read can be completed.
    rintro ⟨p, hp⟩
    obtain ⟨t, ht⟩ := Progress.spells_completion hp
    exact ⟨p.completion, t, ht⟩
  · -- The machine reads the whole type, so also its beginning.
    rintro ⟨us, t, ht⟩
    obtain ⟨f, -, hrun⟩ := ht.run
    obtain ⟨p, hp, -⟩ := Progress.run_append_eq_ok.mp (hrun [])
    exact ⟨p, hp⟩

/-! ## Tokens of the same kinds -/

namespace Progress

/-- Whether two states differ only in the names and types that were read. -/
inductive SameForm : Progress → Progress → Prop where
  | wanted {xs ys : List OpenGeneric} (h : xs.length = ys.length) :
      SameForm ⟨xs, .wanted⟩ ⟨ys, .wanted⟩
  | name {xs ys : List OpenGeneric} (h : xs.length = ys.length) (m n : String) :
      SameForm ⟨xs, .name m⟩ ⟨ys, .name n⟩
  | applied {xs ys : List OpenGeneric} (h : xs.length = ys.length) (t u : Ty) :
      SameForm ⟨xs, .applied t⟩ ⟨ys, .applied u⟩
  | marked {xs ys : List OpenGeneric} (h : xs.length = ys.length) (t u : Ty) :
      SameForm ⟨xs, .marked t⟩ ⟨ys, .marked u⟩

/-- Every state has its own form. -/
theorem SameForm.refl (p : Progress) : p.SameForm p := by
  obtain ⟨stack, f⟩ := p
  cases f <;> constructor <;> rfl

variable {p q r : Progress} {tok tok' : Token}

/-- After complete types, tokens of one kind lead to states of one form. -/
theorem afterType_of_sameForm {xs ys : List OpenGeneric} (h : xs.length = ys.length) (t u : Ty)
    (hkind : tok.kind = tok'.kind) (hr : afterType xs t tok = .ok r) :
    ∃ r', afterType ys u tok' = .ok r' ∧ r.SameForm r' := by
  -- What matters is how many applications are open, not of what.
  cases xs with
  | nil => cases hr
  | cons g xs =>
    cases ys with
    | nil => cases h
    | cons g' ys =>
      have hlen : xs.length = ys.length := Nat.succ.inj h
      cases tok with
      | comma =>
        cases tok' <;> cases hkind
        obtain rfl := Except.ok.inj hr
        exact ⟨_, rfl, .wanted h⟩
      | gt =>
        cases tok' <;> cases hkind
        obtain rfl := Except.ok.inj hr
        exact ⟨_, rfl, .applied hlen _ _⟩
      | ident n => cases hr
      | lt => cases hr
      | question => cases hr

/-- Tokens of one kind are read alike in states of one form. -/
theorem advance_of_sameForm (h : p.SameForm q) (hkind : tok.kind = tok'.kind)
    (hr : p.advance tok = .ok r) : ∃ r', q.advance tok' = .ok r' ∧ r.SameForm r' := by
  -- The form of the state and the kind of the token decide what happens.
  cases h with
  | wanted hlen =>
    cases tok with
    | ident n =>
      cases tok' <;> cases hkind
      obtain rfl := Except.ok.inj hr
      exact ⟨_, rfl, .name hlen _ _⟩
    | _ => cases hr
  | name hlen m n =>
    cases tok with
    | lt =>
      cases tok' <;> cases hkind
      obtain rfl := Except.ok.inj hr
      exact ⟨_, rfl, .wanted (congrArg (· + 1) hlen)⟩
    | question =>
      cases tok' <;> cases hkind
      obtain rfl := Except.ok.inj hr
      exact ⟨_, rfl, .marked hlen _ _⟩
    | _ =>
      cases tok' <;> cases hkind
      exact afterType_of_sameForm hlen (.named m) (.named n) rfl hr
  | applied hlen t u =>
    cases tok with
    | question =>
      cases tok' <;> cases hkind
      obtain rfl := Except.ok.inj hr
      exact ⟨_, rfl, .marked hlen _ _⟩
    | _ =>
      cases tok' <;> cases hkind
      exact afterType_of_sameForm hlen t u rfl hr
  | marked hlen t u =>
    cases tok with
    | question => cases hr
    | _ =>
      cases tok' <;> cases hkind
      exact afterType_of_sameForm hlen t u rfl hr

/-- Sequences of tokens of the same kinds lead to states of one form. -/
theorem run_of_sameForm {ts us : List Token} (h : p.SameForm q)
    (hkinds : ts.map Token.kind = us.map Token.kind) (hr : p.run ts = .ok r) :
    ∃ r', q.run us = .ok r' ∧ r.SameForm r' := by
  -- Induction on the tokens, two sequences at a time.
  induction ts generalizing p q us with
  | nil =>
    obtain rfl : us = [] := by simpa using hkinds.symm
    obtain rfl := Except.ok.inj hr
    exact ⟨q, rfl, h⟩
  | cons tok ts ih =>
    obtain ⟨tok', us, rfl⟩ := List.exists_cons_of_ne_nil (l := us) (by rintro rfl; cases hkinds)
    obtain ⟨hkind, hkinds⟩ := List.cons.inj hkinds
    obtain ⟨p', hp', hr⟩ := run_cons_eq_ok.mp hr
    obtain ⟨q', hq', hform⟩ := advance_of_sameForm h hkind hp'
    obtain ⟨r', hr', hform'⟩ := ih hform hkinds hr
    exact ⟨r', run_cons_eq_ok.mpr ⟨q', hq', hr'⟩, hform'⟩

/-- Reading fails at the end, or at the first token that the state before it does not allow. -/
theorem read_eq_error {stop : Nat} {tokens : List (Located Token)} {e : SyntaxError}
    (h : p.read stop tokens = .error e) :
    (∃ q, p.run (tokens.map (·.value)) = .ok q ∧ q.complete = .error e.cause ∧
      e.span = ⟨stop, stop⟩) ∨
    ∃ before tok after q, tokens = before ++ tok :: after ∧
      p.run (before.map (·.value)) = .ok q ∧ q.advance tok.value = .error e.cause ∧
      e.span = tok.span := by
  -- Induction on the tokens: the first that is refused is at hand, or it is behind those that were
  -- read.
  induction tokens generalizing p with
  | nil =>
    rw [read] at h
    cases hcomplete : p.complete with
    | ok t =>
      rw [hcomplete] at h
      cases h
    | error cause =>
      rw [hcomplete] at h
      obtain rfl := Except.error.inj h
      exact .inl ⟨p, rfl, hcomplete, rfl⟩
  | cons tok tokens ih =>
    rw [read] at h
    cases hstep : p.advance tok.value with
    | error cause =>
      rw [hstep] at h
      obtain rfl := Except.error.inj h
      exact .inr ⟨[], tok, tokens, p, rfl, rfl, hstep, rfl⟩
    | ok q =>
      rw [hstep] at h
      rcases ih h with ⟨r, hr, hcomplete, hspan⟩ | ⟨before, tok', after, r, rfl, hr, hstop, hspan⟩
      · refine .inl ⟨r, ?_, hcomplete, hspan⟩
        rw [List.map_cons, run_of_advance hstep, hr]
      · refine .inr ⟨tok :: before, tok', after, r, rfl, ?_, hstop, hspan⟩
        rw [List.map_cons, run_of_advance hstep, hr]

end Progress

/-! ## Token sequences of types -/

/-- Whether a sequence of tokens is that of a text which spells a type. -/
def IsSpelling (ts : List Token) : Prop :=
  ∃ (s : String) (t : Ty), Token.spelling (Token.scan s.toList) = .ok ts ∧ parse s = .ok t

/-- The tokens of a text that spells a type derive a type. -/
theorem IsSpelling.spells {ts : List Token} (h : IsSpelling ts) : ∃ t, Spells ts t := by
  obtain ⟨s, t, hscan, hparse⟩ := h
  obtain ⟨us, hus, ht⟩ := parse_eq_ok.mp hparse
  obtain rfl : us = ts := Except.ok.inj (hus.symm.trans hscan)
  exact ⟨t, ht⟩

/-- A text for a token, which keeps it apart from what follows. -/
def written : Token → List Char
  | .ident n => n.toList ++ [' ']
  | .lt => ['<', ' ']
  | .gt => ['>', ' ']
  | .comma => [',', ' ']
  | .question => ['?', ' ']

/-- Tokens that are written out, with a blank behind each, are scanned as these tokens. -/
theorem spell_written {ts : List Token} (h : ∀ n, .ident n ∈ ts → Token.Dotted n.toList) :
    Token.spell .between (ts.flatMap written) = .ok ts := by
  induction ts with
  | nil => rfl
  | cons tok ts ih =>
    have hone : Token.spell .between (written tok) = .ok [tok] := by
      cases tok with
      | ident n =>
        have hblank : Token.Apart n.toList [' '] := .of_head (by simp; decide)
        rw [written, Token.spell_append hblank, Token.spell_dotted (h n List.mem_cons_self),
          String.ofList_toList]
        rfl
      | _ => rfl
    -- The blank behind a token keeps it apart from the next.
    have hapart : Token.Apart (written tok) (ts.flatMap written) :=
      .of_last (by cases tok <;> simp [written] <;> decide)
    rw [List.flatMap_cons, Token.spell_append hapart, hone,
      ih fun n hn => h n (List.mem_cons_of_mem _ hn)]
    rfl

/-- What the grammar derives from names that can be scanned is the token sequence of a type. -/
theorem isSpelling_of_spells {ts : List Token} {t : Ty} (h : Spells ts t)
    (hnames : ∀ n, .ident n ∈ ts → Token.Dotted n.toList) : IsSpelling ts := by
  have hscan := spell_written hnames
  have htext : (String.ofList (ts.flatMap written)).toList = ts.flatMap written :=
    String.toList_ofList
  refine ⟨String.ofList (ts.flatMap written), t, ?_, parse_eq_ok.mpr ⟨ts, ?_, h⟩⟩
  · rw [htext]
    exact hscan
  · rw [htext, hscan]

/-- The name in a completion can be scanned. -/
theorem Progress.dotted_of_mem_completion {p : Progress} {n : String}
    (h : .ident n ∈ p.completion) : Token.Dotted n.toList := by
  obtain ⟨stack, f⟩ := p
  cases f with
  | wanted =>
    obtain rfl : n = "T" := by simpa [completion, List.mem_replicate] using h
    exact .segment (by decide)
  | _ => simp [completion, List.mem_replicate] at h

/-- As long as the reader goes on, the tokens are the beginning of a type. -/
theorem isSpelling_completion {p : Progress} {ts : List Token} (h : Progress.start.run ts = .ok p)
    (hnames : ∀ n, .ident n ∈ ts → Token.Dotted n.toList) : IsSpelling (ts ++ p.completion) := by
  obtain ⟨t, ht⟩ := Progress.spells_completion h
  refine isSpelling_of_spells ht fun n hn => ?_
  rcases List.mem_append.mp hn with hn | hn
  · exact hnames n hn
  · exact Progress.dotted_of_mem_completion hn

/-- No type goes on with a token that the reader refuses, nor with any other token of its kind. -/
theorem not_isPrefix_of_advance {p : Progress} {ts us : List Token} {tok : Token}
    {cause : SyntaxError.Cause} (h : Progress.start.run ts = .ok p)
    (hstop : p.advance tok = .error cause) (hus : IsSpelling us) :
    ¬ (ts ++ [tok]).map Token.kind <+: us.map Token.kind := by
  rintro ⟨kinds, hkinds⟩
  obtain ⟨us, vs, rfl, hus', -⟩ := List.map_eq_append_iff.mp hkinds.symm
  obtain ⟨t, ht⟩ := hus.spells
  obtain ⟨q, hq⟩ := exists_run_iff.mpr ⟨vs, t, ht⟩
  -- The reader would take the refused token as it takes the one of the same kind.
  obtain ⟨r, hr, -⟩ := Progress.run_of_sameForm (.refl _) hus' hq
  obtain ⟨p', hp', hlast⟩ := Progress.run_append_eq_ok.mp hr
  obtain rfl : p = p' := Except.ok.inj (h.symm.trans hp')
  obtain ⟨r', hr', -⟩ := Progress.run_cons_eq_ok.mp hlast
  rw [hstop] at hr'
  cases hr'

/-! ## The place of a fault -/

/-- Whether a byte offset is between two characters of a text, or at one of its ends. -/
def IsBoundary (text : List Char) (i : Nat) : Prop :=
  ∃ before after, text = before ++ after ∧ byteSize before = i

/-- What the place of a fault in a text has to be. -/
structure IsFaultPlace (text : List Char) (place : Span) : Prop where
  ordered : place.start ≤ place.stop
  inBounds : place.stop ≤ byteSize text
  start : IsBoundary text place.start
  stop : IsBoundary text place.stop
  /-- A text that cannot be scanned is at fault at the character that begins no match, whatever is
      wrong with the tokens before it. -/
  stray : (∃ e, Token.scan text = .error e) → ∃ before c after, text = before ++ c :: after ∧
    Token.Reaches text (c :: after) ∧ (∀ cs, Token.Matches cs → ¬ cs <+: c :: after) ∧
      place = ⟨byteSize before, byteSize before + c.utf8Size⟩
  /-- Any other text is at fault at the end, where more tokens would make a type of it, or at the
      first token that no type goes on with. -/
  unexpected : ∀ tokens, Token.scan text = .ok tokens →
    (place = ⟨byteSize text, byteSize text⟩ ∧
      ∃ us, us ≠ [] ∧ IsSpelling (tokens.map (·.value) ++ us)) ∨
    ∃ before tok after, tokens = before ++ tok :: after ∧ place = tok.span ∧
      (∃ us, IsSpelling (before.map (·.value) ++ us)) ∧
      ∀ ts, IsSpelling ts →
        ¬ (before ++ [tok]).map (fun located => located.value.kind) <+: ts.map Token.kind

/-- A boundary lies in the text. -/
theorem IsBoundary.le {text : List Char} {i : Nat} (h : IsBoundary text i) : i ≤ byteSize text := by
  obtain ⟨before, after, rfl, rfl⟩ := h
  simp

/-- The fault of a text that cannot be scanned is where it has to be. -/
theorem isFaultPlace_of_scan {text : List Char} {e : SyntaxError}
    (h : Token.scan text = .error e) : IsFaultPlace text e.span := by
  obtain ⟨before, c, after, htext, hreaches, hstray, rfl⟩ := Token.exists_stray_of_scanFrom h
  have hspan : (Token.strayCharacter c (0 + byteSize before)).span =
      ⟨byteSize before, byteSize before + c.utf8Size⟩ := by
    rw [Nat.zero_add]
    rfl
  have hstart : IsBoundary text (byteSize before) := ⟨before, c :: after, htext, rfl⟩
  have hstop : IsBoundary text (byteSize before + c.utf8Size) :=
    ⟨before ++ [c], after, by simp [htext], by simp⟩
  rw [hspan]
  refine ⟨Nat.le_add_right _ _, hstop.le, hstart, hstop,
    fun _ => ⟨before, c, after, htext, hreaches, hstray, rfl⟩, fun tokens htokens => ?_⟩
  rw [h] at htokens
  cases htokens

/-- The fault of a text that can be scanned is where it has to be. -/
theorem isFaultPlace_of_read {text : List Char} {tokens : List (Located Token)} {e : SyntaxError}
    (hscan : Token.scan text = .ok tokens) (h : ofTokens (byteSize text) tokens = .error e) :
    IsFaultPlace text e.span := by
  have hpartition : Token.IsPartition 0 text tokens := Token.scanFrom_eq_ok_iff.mp hscan
  -- Names that were scanned are dotted, so they may be used in completions.
  have hnames : ∀ n, .ident n ∈ tokens.map (·.value) → Token.Dotted n.toList := by
    have hspell : Token.spell .between text = .ok (tokens.map (·.value)) :=
      congrArg Token.spelling hscan
    exact fun n hn => Token.dotted_of_spell hspell hn
  have hstray : ¬ ∃ e, Token.scan text = .error e := by
    rintro ⟨e, he⟩
    rw [hscan] at he
    cases he
  rcases Progress.read_eq_error h with ⟨p, hp, hcomplete, hspan⟩ |
    ⟨before, tok, after, p, rfl, hp, hstop, hspan⟩
  · -- The tokens ended too soon: the fault is at the end of the text.
    have hend : IsBoundary text (byteSize text) := ⟨text, [], by simp, rfl⟩
    rw [hspan]
    refine ⟨Nat.le_refl _, Nat.le_refl _, hend, hend, fun h => absurd h hstray, fun us hus => ?_⟩
    obtain rfl : tokens = us := Except.ok.inj (hscan.symm.trans hus)
    exact .inl ⟨rfl, p.completion, Progress.completion_ne_nil hcomplete,
      isSpelling_completion hp hnames⟩
  · -- A token was refused: the fault is where that token stands.
    obtain ⟨a, cs, b, htext, hplace, -⟩ := hpartition.lexemes tok (by simp)
    simp only [Nat.zero_add] at hplace
    have hstart : IsBoundary text (byteSize a) := ⟨a, cs ++ b, htext, rfl⟩
    have hstop' : IsBoundary text (byteSize a + byteSize cs) :=
      ⟨a ++ cs, b, by simp [htext], by simp⟩
    rw [hspan, hplace]
    refine ⟨Nat.le_add_right _ _, hstop'.le, hstart, hstop', fun h => absurd h hstray,
      fun us hus => .inr ?_⟩
    obtain rfl : before ++ tok :: after = us := Except.ok.inj (hscan.symm.trans hus)
    refine ⟨before, tok, after, rfl, hplace.symm, ⟨p.completion, isSpelling_completion hp ?_⟩, ?_⟩
    · exact fun n hn => hnames n (by simp at hn ⊢; exact .inl hn)
    · intro ts hts
      have hnot := not_isPrefix_of_advance hp hstop hts
      simpa [Function.comp_def] using hnot

/-- The place of a fault lies inside the text and cuts no character. In a text that cannot be
    scanned it is the first character at which no match begins; in any other it is the first token
    that no type goes on with, or else the end of a text which is the beginning of a type. -/
theorem parse_faultPlace {s : String} {e : SyntaxError} (h : parse s = .error e) :
    IsFaultPlace s.toList e.span := by
  unfold parse parseChars at h
  cases hscan : Token.scan s.toList with
  | error e' =>
    rw [hscan] at h
    obtain rfl := Except.error.inj h
    exact isFaultPlace_of_scan hscan
  | ok tokens =>
    rw [hscan] at h
    exact isFaultPlace_of_read hscan h

/-- A stray character behind a misplaced comma, a second `?`, and an end that comes too soon. -/
theorem parse_faultPlace_samples :
    (parse "Func<,é" = .error ⟨.unexpectedCharacter 'é', ⟨6, 8⟩⟩ ∧
      IsFaultPlace "Func<,é".toList ⟨6, 8⟩) ∧
    (parse "Query<long??>" = .error ⟨.nestedNullable, ⟨11, 12⟩⟩ ∧
      IsFaultPlace "Query<long??>".toList ⟨11, 12⟩) ∧
    parse "Query<Item" = .error ⟨.expected .gt none, ⟨10, 10⟩⟩ ∧
      IsFaultPlace "Query<Item".toList ⟨10, 10⟩ := by
  have hstray : parse "Func<,é" = .error ⟨.unexpectedCharacter 'é', ⟨6, 8⟩⟩ := by rfl
  have htoken : parse "Query<long??>" = .error ⟨.nestedNullable, ⟨11, 12⟩⟩ := by rfl
  have hend : parse "Query<Item" = .error ⟨.expected .gt none, ⟨10, 10⟩⟩ := by rfl
  exact ⟨⟨hstray, parse_faultPlace hstray⟩, ⟨htoken, parse_faultPlace htoken⟩, hend,
    parse_faultPlace hend⟩

end Ty

end Retarget
