import Retarget.Proofs.Grammar

/-!
# What a text spells

The scanner without the places of its tokens. What a text spells is put together from what its parts
spell wherever no name goes across the cut, so blanks matter only between two names; and names are
scanned exactly if they are dotted.

## Key results

- `Token.IsMark`: the marks and their tokens
- `Token.spell`: the tokens of a text, without their places
- `Token.spell_append`: texts that are set apart are scanned one after the other
- `Token.spell_dotted`, `Token.dotted_of_spell`: the names are the dotted ones
- `Ty.parse_follows_grammar`: the types that texts spell
-/

namespace Retarget

namespace Token

/-! ## Characters -/

/-- The characters that names are made of. -/
def isNamePart (c : Char) : Bool :=
  isNameChar c || c = '.'

/-- What starts a segment can also stand inside one. -/
theorem isNameChar_of_isNameStart {c : Char} (h : isNameStart c = true) : isNameChar c = true := by
  simp only [isNameStart, Bool.or_eq_true, decide_eq_true_eq] at h
  simp only [isNameChar, Char.isAlphanum, Bool.or_eq_true, decide_eq_true_eq]
  rcases h with h | h
  · exact .inl (.inl h)
  · exact .inr h

/-- What can stand in a segment is part of a name. -/
theorem isNamePart_of_isNameChar {c : Char} (h : isNameChar c = true) : isNamePart c = true := by
  rw [isNamePart, h, Bool.true_or]

/-- Dots are the only parts of names that segments do not have. -/
theorem eq_dot_of_isNamePart {c : Char} (h : isNamePart c = true) (hchar : isNameChar c = false) :
    c = '.' := by
  rw [isNamePart, hchar, Bool.false_or, decide_eq_true_eq] at h
  exact h

/-- No blank is part of a name. -/
theorem not_isNamePart_of_isBlank {c : Char} (h : isBlank c = true) : isNamePart c = false := by
  simp only [isBlank, Bool.or_eq_true, decide_eq_true_eq] at h
  rcases h with ((rfl | rfl) | rfl) | rfl <;> decide

/-- The marks and their tokens: brackets around arguments, a comma between them, and a `?` after
    what is nullable. -/
inductive IsMark : Char → Token → Prop where
  | lt : IsMark '<' .lt
  | gt : IsMark '>' .gt
  | comma : IsMark ',' .comma
  | question : IsMark '?' .question

/-- These are the marks that the scanner knows. -/
theorem ofMark?_eq_some {c : Char} {t : Token} : ofMark? c = some t ↔ IsMark c t := by
  constructor
  · intro h
    unfold ofMark? at h
    split at h
    · exact Option.some.inj h ▸ .lt
    · exact Option.some.inj h ▸ .gt
    · exact Option.some.inj h ▸ .comma
    · exact Option.some.inj h ▸ .question
    · cases h
  · intro h
    cases h <;> rfl

/-- No mark is part of a name. -/
theorem IsMark.not_isNamePart {c : Char} {t : Token} (h : IsMark c t) : isNamePart c = false := by
  cases h <;> decide

/-- What is no part of a name starts none. -/
theorem not_isNameStart_of_not_isNamePart {c : Char} (h : isNamePart c = false) :
    isNameStart c = false := by
  rw [Bool.eq_false_iff]
  intro hs
  rw [isNamePart_of_isNameChar (isNameChar_of_isNameStart hs)] at h
  cases h

/-- Where nothing but a blank, the start of a name and a mark can be read, other parts of names are
    faults. -/
theorem start_of_isNamePart {pos : Nat} {c : Char} (h : isNamePart c = true) :
    start pos c =
      if isNameStart c then .ok ([], .inName pos [c]) else .error (strayCharacter c pos) := by
  -- It is neither a blank nor a mark.
  have hblank : isBlank c = false := by
    rw [Bool.eq_false_iff]
    intro hb
    rw [not_isNamePart_of_isBlank hb] at h
    cases h
  have hmark : ofMark? c = none := by
    cases hm : ofMark? c with
    | none => rfl
    | some t =>
      rw [(ofMark?_eq_some.mp hm).not_isNamePart] at h
      cases h
  simp [start, hblank, hmark]

/-- A character that is not part of a name leaves the scanner between tokens. -/
theorem start_of_not_isNamePart {pos : Nat} {c : Char} (h : isNamePart c = false)
    {tokens : List (Located Token)} {next : Mode} (hstart : start pos c = .ok (tokens, next)) :
    next = .between := by
  have hname := not_isNameStart_of_not_isNamePart h
  simp only [start, hname, Bool.false_eq_true, if_false] at hstart
  split at hstart
  · cases hstart
    rfl
  · split at hstart
    · cases hstart
      rfl
    · cases hstart

/-! ## Scanning without places -/

/-- Tokens without their places, or the cause of a fault without its place. -/
def spelling : Except SyntaxError (List (Located Token)) → Except SyntaxError.Cause (List Token)
  | .ok tokens => .ok (tokens.map (·.value))
  | .error e => .error e.cause

/-- A mode without places. -/
def Mode.bare : Mode → Mode
  | .between => .between
  | .inName _ text => .inName 0 text
  | .afterDot _ text _ => .afterDot 0 text 0

/-- The outcome of a step without places. -/
def taken : Except SyntaxError (List (Located Token) × Mode) →
    Except SyntaxError.Cause (List Token × Mode)
  | .ok (tokens, next) => .ok (tokens.map (·.value), next.bare)
  | .error e => .error e.cause

/-- What is read between tokens depends on no place. -/
theorem taken_start (pos pos' : Nat) (c : Char) :
    taken (start pos c) = taken (start pos' c) := by
  unfold start
  split
  · rfl
  · split
    · rfl
    · split <;> rfl

/-- A character that is not part of a name ends the one before it and is then read by itself. -/
theorem taken_step_inName {c : Char} (h : isNamePart c = false) (i pos : Nat) (text : List Char) :
    taken (step (.inName i text) pos c) =
      (taken (start pos c) >>= fun r => .ok (.ident (String.ofList text.reverse) :: r.1, r.2)) := by
  obtain ⟨hchar, hdot⟩ : isNameChar c = false ∧ c ≠ '.' := by simpa [isNamePart] using h
  rw [step, if_neg (by simp [hchar]), if_neg hdot]
  cases start pos c <;> rfl

/-- If such a character can be read, the name is the first of the tokens that the step completes. -/
theorem taken_step_inName_eq_ok {c : Char} (h : isNamePart c = false) {i pos : Nat}
    {text : List Char} {ts : List Token} {next : Mode}
    (hstep : taken (step (.inName i text) pos c) = .ok (ts, next)) :
    ∃ us, taken (start pos c) = .ok (us, next) ∧
      ts = .ident (String.ofList text.reverse) :: us := by
  rw [taken_step_inName h] at hstep
  cases hstart : taken (start pos c) with
  | error cause =>
    rw [hstart] at hstep
    cases hstep
  | ok r =>
    rw [hstart] at hstep
    cases hstep
    exact ⟨r.1, rfl, rfl⟩

/-- What a step does depends on no place. -/
theorem taken_step (mode : Mode) (pos : Nat) (c : Char) :
    taken (step mode pos c) = taken (step mode.bare 0 c) := by
  -- Only inside a name is there a choice: what goes on with it, and what ends it.
  cases mode with
  | between => exact taken_start pos 0 c
  | inName first text =>
    cases hpart : isNamePart c with
    | false => rw [Mode.bare, taken_step_inName hpart, taken_step_inName hpart, taken_start pos 0]
    | true =>
      cases hchar : isNameChar c with
      | true => simp [Mode.bare, step, hchar, taken]
      | false =>
        obtain rfl := eq_dot_of_isNamePart hpart hchar
        rfl
  | afterDot first text dot =>
    simp only [Mode.bare, step]
    split <;> rfl

/-- What the rest of a text spells when the scanner is in a mode. -/
def spell (mode : Mode) (text : List Char) : Except SyntaxError.Cause (List Token) :=
  spelling (scanFrom mode 0 text)

/-- What follows some tokens. -/
def andThen (x y : Except SyntaxError.Cause (List Token)) :
    Except SyntaxError.Cause (List Token) := do
  return (← x) ++ (← y)

@[simp] theorem andThen_error (cause : SyntaxError.Cause)
    (y : Except SyntaxError.Cause (List Token)) : andThen (.error cause) y = .error cause := rfl

/-- What follows no tokens is all there is. -/
@[simp] theorem andThen_nil (y : Except SyntaxError.Cause (List Token)) :
    andThen (.ok []) y = y := by
  cases y <;> rfl

@[simp] theorem andThen_ok_ok (ts us : List Token) : andThen (.ok ts) (.ok us) = .ok (ts ++ us) :=
  rfl

/-- In a sequence of three it does not matter which two are put together first. -/
theorem andThen_assoc (x y z : Except SyntaxError.Cause (List Token)) :
    andThen (andThen x y) z = andThen x (andThen y z) := by
  cases x with
  | error cause => rfl
  | ok ts =>
    cases y with
    | error cause => rfl
    | ok us =>
      cases z with
      | error cause => rfl
      | ok vs => simp

/-- Two parts spell tokens together exactly if both do. -/
theorem andThen_eq_ok {x y : Except SyntaxError.Cause (List Token)} {ts : List Token} :
    andThen x y = .ok ts ↔ ∃ us vs, x = .ok us ∧ y = .ok vs ∧ ts = us ++ vs := by
  cases x with
  | error cause => simp
  | ok us =>
    cases y with
    | error cause => simp [andThen, bind, Except.bind]
    | ok vs => simp [eq_comm]

/-- One step without its places, if the rest of the text is known to need none. -/
private theorem scanned_cons {mode : Mode} {pos : Nat} {c : Char} {cs : List Char}
    (hrest : ∀ mode pos, spelling (scanFrom mode pos cs) = spell mode.bare cs) :
    spelling (scanFrom mode pos (c :: cs)) =
      (taken (step mode pos c) >>= fun r => andThen (.ok r.1) (spell r.2 cs)) := by
  rw [scanFrom]
  cases step mode pos c with
  | error e => rfl
  | ok r =>
    obtain ⟨tokens, next⟩ := r
    show _ = andThen (.ok (tokens.map (·.value))) (spell next.bare cs)
    -- The rest starts at another place, which makes no difference to it.
    rw [← hrest next (pos + c.utf8Size)]
    dsimp only
    cases scanFrom next (pos + c.utf8Size) cs with
    | error e => rfl
    | ok rest => simp [spelling]

/-- The scanner spells the same wherever it starts. -/
theorem spelling_scanFrom (mode : Mode) (pos : Nat) (text : List Char) :
    spelling (scanFrom mode pos text) = spell mode.bare text := by
  -- Induction on the text, from any mode and any place.
  induction text generalizing mode pos with
  | nil => cases mode <;> rfl
  | cons c cs ih => rw [spell, scanned_cons ih, taken_step, scanned_cons ih]

/-- What a text spells is told by its first character and the rest. -/
theorem spell_cons (mode : Mode) (c : Char) (cs : List Char) :
    spell mode (c :: cs) =
      (taken (step mode 0 c) >>= fun r => andThen (.ok r.1) (spell r.2 cs)) :=
  scanned_cons (fun mode pos => spelling_scanFrom mode pos cs)

/-- The tokens that a step completes come before those of the rest. -/
theorem spell_cons_of_step {mode next : Mode} {c : Char} {ts : List Token}
    (h : taken (step mode 0 c) = .ok (ts, next)) (cs : List Char) :
    spell mode (c :: cs) = andThen (.ok ts) (spell next cs) := by
  rw [spell_cons, h]
  rfl

/-- A fault at the first character is that of the whole text. -/
theorem spell_cons_of_fault {mode : Mode} {c : Char} {cause : SyntaxError.Cause}
    (h : taken (step mode 0 c) = .error cause) (cs : List Char) :
    spell mode (c :: cs) = .error cause := by
  rw [spell_cons, h]
  rfl

/-! ### One character -/

section

variable {i j : Nat} {c : Char} {text cs : List Char}

/-- Between tokens a blank is passed over. -/
theorem spell_blank (h : isBlank c = true) : spell .between (c :: cs) = spell .between cs := by
  have hstep : taken (step .between 0 c) = .ok ([], .between) := by
    rw [step, start, if_pos h]
    rfl
  rw [spell_cons_of_step hstep, andThen_nil]

/-- Between tokens a mark is a token. -/
theorem spell_mark {t : Token} (h : IsMark c t) :
    spell .between (c :: cs) = andThen (.ok [t]) (spell .between cs) := by
  have hstep : taken (step .between 0 c) = .ok ([t], .between) := by
    cases h <;> rfl
  exact spell_cons_of_step hstep cs

/-- A dot needs a segment after it. -/
theorem spell_afterDot_fault (h : isNameStart c = false) :
    spell (.afterDot i text j) (c :: cs) = .error (.unexpectedCharacter '.') := by
  apply spell_cons_of_fault
  rw [step, if_neg (by simp [h])]
  rfl

/-- A character that is no part of a name ends the name before it, and is scanned as if nothing were
    before it. -/
theorem spell_inName_end (h : isNamePart c = false) :
    spell (.inName i text) (c :: cs) =
      andThen (spell (.inName i text) []) (spell .between (c :: cs)) := by
  rw [spell_cons, spell_cons, taken_step_inName h, step]
  cases taken (start 0 c) with
  | error cause => rfl
  | ok r => exact andThen_assoc (.ok [.ident (String.ofList text.reverse)]) (.ok r.1) _

end

/-! ## Texts that are set apart -/

/-- Whether no name can go from the end of one text on into the other. -/
def Apart (a b : List Char) : Prop :=
  ∀ c ∈ a.getLast?, isNamePart c = true → ∀ d ∈ b.head?, isNamePart d = false

/-- A part of a name completes no token. -/
theorem step_of_isNamePart {mode next : Mode} {c : Char} {ts : List Token}
    (hc : isNamePart c = true) (h : taken (step mode 0 c) = .ok (ts, next)) :
    ts = [] ∧ next ≠ .between := by
  -- A part of a name starts a name, goes on with one, or starts its next segment.
  cases mode with
  | between =>
    rw [step, start_of_isNamePart hc] at h
    split at h
    · cases h
      exact ⟨rfl, nofun⟩
    · cases h
  | inName first text =>
    cases hchar : isNameChar c with
    | true =>
      rw [step, if_pos hchar] at h
      cases h
      exact ⟨rfl, nofun⟩
    | false =>
      obtain rfl := eq_dot_of_isNamePart hc hchar
      cases h
      exact ⟨rfl, nofun⟩
  | afterDot first text dot =>
    rw [step] at h
    split at h
    · cases h
      exact ⟨rfl, nofun⟩
    · cases h

/-- Any other character ends what is before it. -/
theorem step_of_not_isNamePart {mode next : Mode} {c : Char} {ts : List Token}
    (hc : isNamePart c = false) (h : taken (step mode 0 c) = .ok (ts, next)) :
    next = .between := by
  have hstart : ∀ {us : List Token}, taken (start 0 c) = .ok (us, next) → next = .between := by
    intro us hus
    cases hs : start 0 c with
    | error e =>
      rw [hs] at hus
      cases hus
    | ok r =>
      obtain ⟨tokens, m⟩ := r
      rw [hs, start_of_not_isNamePart hc hs] at hus
      exact (Prod.mk.inj (Except.ok.inj hus)).2.symm
  cases mode with
  | between => exact hstart h
  | inName first text =>
    obtain ⟨us, hus, -⟩ := taken_step_inName_eq_ok hc h
    exact hstart hus
  | afterDot first text dot =>
    rw [step, not_isNameStart_of_not_isNamePart hc] at h
    cases h

/-- Where no name goes on, what has been read is a token of its own. -/
theorem spell_of_ended {mode : Mode} {b : List Char}
    (h : mode = .between ∨ ∀ d ∈ b.head?, isNamePart d = false) :
    spell mode b = andThen (spell mode []) (spell .between b) := by
  cases mode with
  | between => exact (andThen_nil _).symm
  | inName first text =>
    have h := h.resolve_left nofun
    cases b with
    | nil => rfl
    | cons d b => exact spell_inName_end (h d rfl)
  | afterDot first text dot =>
    have h := h.resolve_left nofun
    cases b with
    | nil => rfl
    | cons d b =>
      rw [spell_afterDot_fault (not_isNameStart_of_not_isNamePart (h d rfl))]
      rfl

/-- Texts that are set apart, scanned from any mode. -/
theorem spell_append_of_ended {mode : Mode} {a b : List Char} (hab : Apart a b)
    (hmode : a = [] → mode = .between ∨ ∀ d ∈ b.head?, isNamePart d = false) :
    spell mode (a ++ b) = andThen (spell mode a) (spell .between b) := by
  -- The induction is over the first text. What it needs to know of the mode matters only when that
  -- text has come to its end; the last character has then settled it.
  induction a generalizing mode with
  | nil => exact spell_of_ended (hmode rfl)
  | cons c a ih =>
    cases hstep : taken (step mode 0 c) with
    | error cause =>
      rw [List.cons_append, spell_cons_of_fault hstep, spell_cons_of_fault hstep, andThen_error]
    | ok r =>
      obtain ⟨ts, next⟩ := r
      -- The end of what is left of the first text is the end of all of it.
      have hrest : Apart a b := by
        intro d hd
        cases a with
        | nil => cases hd
        | cons e a => exact hab d hd
      have hnext : a = [] → next = .between ∨ ∀ d ∈ b.head?, isNamePart d = false := by
        rintro rfl
        by_cases hc : isNamePart c = true
        · exact .inr (hab c rfl hc)
        · exact .inl (step_of_not_isNamePart (by simpa using hc) hstep)
      rw [List.cons_append, spell_cons_of_step hstep, spell_cons_of_step hstep, ih hrest hnext,
        andThen_assoc]

/-- Texts that are set apart are scanned one after the other. -/
theorem spell_append {a b : List Char} (h : Apart a b) :
    spell .between (a ++ b) = andThen (spell .between a) (spell .between b) :=
  spell_append_of_ended h fun _ => .inl rfl

/-- Blanks alone spell nothing. -/
theorem spell_blanks {w : List Char} (h : ∀ c ∈ w, isBlank c = true) :
    spell .between w = .ok [] := by
  induction w with
  | nil => rfl
  | cons c w ih =>
    rw [spell_blank (h c List.mem_cons_self), ih fun d hd => h d (List.mem_cons_of_mem _ hd)]

/-- A text that does not begin inside a name is set apart from all before it. -/
theorem Apart.of_head {a b : List Char} (h : ∀ d ∈ b.head?, isNamePart d = false) : Apart a b :=
  fun _ _ _ => h

/-- A text that does not end inside a name is set apart from all after it. -/
theorem Apart.of_last {a b : List Char} (h : ∀ c ∈ a.getLast?, isNamePart c = false) :
    Apart a b := by
  intro c hc hpart
  rw [h c hc] at hpart
  cases hpart

/-- Blanks set apart whatever stands on their sides, and between texts that are set apart already
    they are not seen. -/
theorem spell_gap {a w b : List Char} (hw : ∀ c ∈ w, isBlank c = true)
    (h : Apart a b ∨ w ≠ []) :
    spell .between (a ++ w ++ b) = andThen (spell .between a) (spell .between b) := by
  by_cases hne : w = []
  · rw [hne, List.append_nil]
    exact spell_append (h.resolve_right fun h => h hne)
  · -- Nothing that begins or ends with a blank is in the way of a name.
    have hhead : ∀ d ∈ (w ++ b).head?, isNamePart d = false := by
      intro d hd
      cases w with
      | nil => exact absurd rfl hne
      | cons c w =>
        obtain rfl : c = d := by simpa using hd
        exact not_isNamePart_of_isBlank (hw c List.mem_cons_self)
    have hlast : ∀ c ∈ w.getLast?, isNamePart c = false :=
      fun c hc => not_isNamePart_of_isBlank (hw c (List.mem_of_getLast? hc))
    rw [List.append_assoc, spell_append (.of_head hhead), spell_append (.of_last hlast),
      spell_blanks hw, andThen_nil]

/-! ### Names at the ends of a text -/

/-- A text that can be scanned passes through the mode behind its first character. -/
theorem spell_cons_eq_ok {mode : Mode} {c : Char} {cs : List Char} {ts : List Token}
    (h : spell mode (c :: cs) = .ok ts) :
    ∃ us next vs, taken (step mode 0 c) = .ok (us, next) ∧ spell next cs = .ok vs ∧
      ts = us ++ vs := by
  cases hstep : taken (step mode 0 c) with
  | error cause =>
    rw [spell_cons_of_fault hstep] at h
    cases h
  | ok r =>
    obtain ⟨us, next⟩ := r
    rw [spell_cons_of_step hstep, andThen_eq_ok] at h
    obtain ⟨_, vs, hus, hvs, rfl⟩ := h
    obtain rfl := Except.ok.inj hus
    exact ⟨us, next, vs, rfl, hvs, rfl⟩

/-- What is read inside a name begins with that name. -/
theorem exists_name_of_inside {mode : Mode} {cs : List Char} {ts : List Token}
    (hmode : mode ≠ .between) (h : spell mode cs = .ok ts) : ∃ n us, ts = .ident n :: us := by
  induction cs generalizing mode ts with
  | nil =>
    cases mode with
    | between => exact absurd rfl hmode
    | inName first text => exact ⟨_, [], (Except.ok.inj h).symm⟩
    | afterDot first text dot => cases h
  | cons c cs ih =>
    -- The name goes on, or it ends here and is the first token.
    by_cases hc : isNamePart c = true
    · obtain ⟨us, next, vs, hstep, hvs, rfl⟩ := spell_cons_eq_ok h
      obtain ⟨rfl, hnext⟩ := step_of_isNamePart hc hstep
      exact ih hnext hvs
    · have hc : isNamePart c = false := by simpa using hc
      have hended : ∀ d ∈ (c :: cs).head?, isNamePart d = false := by simpa using hc
      rw [spell_of_ended (.inr hended), andThen_eq_ok] at h
      obtain ⟨us, vs, hus, -, rfl⟩ := h
      cases mode with
      | between => exact absurd rfl hmode
      | inName first text =>
        obtain rfl := Except.ok.inj hus
        exact ⟨_, vs, rfl⟩
      | afterDot first text dot => cases hus

/-- A text that begins with a part of a name begins with a name. -/
theorem exists_name_of_head {mode : Mode} {c : Char} {cs : List Char} {ts : List Token}
    (hc : isNamePart c = true) (h : spell mode (c :: cs) = .ok ts) :
    ∃ n us, ts = .ident n :: us := by
  obtain ⟨us, next, vs, hstep, hvs, rfl⟩ := spell_cons_eq_ok h
  obtain ⟨rfl, hnext⟩ := step_of_isNamePart hc hstep
  exact exists_name_of_inside hnext hvs

/-- A text that ends with a part of a name ends with a name. -/
theorem exists_name_of_last {mode : Mode} {cs : List Char} {c : Char} {ts : List Token}
    (hc : isNamePart c = true) (h : spell mode (cs ++ [c]) = .ok ts) :
    ∃ us n, ts = us ++ [.ident n] := by
  induction cs generalizing mode ts with
  | nil =>
    -- The last character leaves the scanner inside a name, which then ends the text.
    obtain ⟨us, next, vs, hstep, hvs, rfl⟩ := spell_cons_eq_ok h
    obtain ⟨rfl, hnext⟩ := step_of_isNamePart hc hstep
    cases next with
    | between => exact absurd rfl hnext
    | inName first text => exact ⟨[], _, (Except.ok.inj hvs).symm⟩
    | afterDot first text dot => cases hvs
  | cons d cs ih =>
    obtain ⟨us, next, vs, -, hvs, rfl⟩ := spell_cons_eq_ok h
    obtain ⟨vs, n, rfl⟩ := ih hvs
    exact ⟨us ++ vs, n, (List.append_assoc ..).symm⟩

/-- Two texts that blanks alone keep apart spell two names side by side. -/
theorem exists_names_of_not_apart {a b : List Char} {us vs : List Token} (h : ¬ Apart a b)
    (ha : spell .between a = .ok us) (hb : spell .between b = .ok vs) :
    ∃ us' m n vs', us ++ vs = us' ++ .ident m :: .ident n :: vs' := by
  unfold Apart at h
  simp only [Classical.not_forall] at h
  obtain ⟨c, hc, hcpart, d, hd, hdpart⟩ := h
  have hdpart : isNamePart d = true := by simpa using hdpart
  obtain ⟨a, rfl⟩ := List.getLast?_eq_some_iff.mp hc
  obtain ⟨b, rfl⟩ := List.head?_eq_some_iff.mp hd
  -- The first text ends with a name and the second begins with one.
  obtain ⟨us, m, rfl⟩ := exists_name_of_last hcpart ha
  obtain ⟨n, vs, rfl⟩ := exists_name_of_head hdpart hb
  exact ⟨us, m, n, vs, by simp⟩

/-! ## Dotted names -/

/-- A segment of a name. -/
def isSegment : List Char → Bool
  | [] => false
  | c :: cs => isNameStart c && cs.all isNameChar

/-- Segments with dots between them. -/
inductive Dotted : List Char → Prop where
  | segment {cs : List Char} (h : isSegment cs = true) : Dotted cs
  | dot {cs ds : List Char} (h : isSegment cs = true) (hs : Dotted ds) : Dotted (cs ++ '.' :: ds)

/-- A segment with one more character is a segment. -/
theorem isSegment_append {cs : List Char} {c : Char} (h : isSegment cs = true)
    (hc : isNameChar c = true) : isSegment (cs ++ [c]) = true := by
  cases cs with
  | nil => cases h
  | cons d cs =>
    simp only [isSegment, List.cons_append, List.all_append, Bool.and_eq_true] at h ⊢
    exact ⟨h.1, h.2, by simp [hc]⟩

/-- What starts a segment is one by itself. -/
theorem isSegment_singleton {c : Char} (h : isNameStart c = true) : isSegment [c] = true := by
  simp [isSegment, h]

/-- The last segment can go on. -/
theorem Dotted.char {cs : List Char} {c : Char} (h : Dotted cs) (hc : isNameChar c = true) :
    Dotted (cs ++ [c]) := by
  induction h with
  | segment h => exact .segment (isSegment_append h hc)
  | dot h _ ih =>
    rw [List.append_assoc, List.cons_append]
    exact .dot h ih

/-- Another segment can begin. -/
theorem Dotted.next {cs : List Char} {c : Char} (h : Dotted cs) (hc : isNameStart c = true) :
    Dotted (cs ++ ['.', c]) := by
  induction h with
  | segment h => exact .dot h (.segment (isSegment_singleton hc))
  | dot h _ ih =>
    rw [List.append_assoc, List.cons_append]
    exact .dot h ih

/-- A step completes its tokens before the rest of the text is scanned. -/
theorem scanFrom_of_step {mode next : Mode} {pos : Nat} {c : Char} {tokens : List (Located Token)}
    (h : step mode pos c = .ok (tokens, next)) (cs : List Char) :
    scanFrom mode pos (c :: cs) =
      (scanFrom next (pos + c.utf8Size) cs).map (tokens ++ ·) := by
  rw [scanFrom, h]
  dsimp only
  cases scanFrom next (pos + c.utf8Size) cs <;> rfl

/-- A step inside a token completes none. -/
theorem scanFrom_of_inner_step {mode next : Mode} {pos : Nat} {c : Char}
    (h : step mode pos c = .ok ([], next)) (cs : List Char) :
    scanFrom mode pos (c :: cs) = scanFrom next (pos + c.utf8Size) cs := by
  rw [scanFrom_of_step h]
  cases scanFrom next (pos + c.utf8Size) cs <;> rfl

section

variable {first pos : Nat} {text cs : List Char}

/-- Characters of a segment are put to the name that the scanner is in. -/
theorem scanFrom_inName_chars (h : ∀ c ∈ cs, isNameChar c = true) (rest : List Char) :
    scanFrom (.inName first text) pos (cs ++ rest) =
      scanFrom (.inName first (cs.reverse ++ text)) (pos + byteSize cs) rest := by
  induction cs generalizing text pos with
  | nil => rfl
  | cons c cs ih =>
    have hstep : step (.inName first text) pos c = .ok ([], .inName first (c :: text)) := by
      rw [step, if_pos (h c List.mem_cons_self)]
    rw [List.cons_append, scanFrom_of_inner_step hstep,
      ih fun d hd => h d (List.mem_cons_of_mem _ hd), List.reverse_cons, List.append_assoc,
      List.singleton_append, byteSize_cons, Nat.add_assoc]

/-- A segment is read to its end, wherever its first character leads into a name. -/
theorem scanFrom_segment {mode : Mode} (h : isSegment cs = true)
    (hstart : ∀ c, isNameStart c = true → step mode pos c = .ok ([], .inName first (c :: text)))
    (rest : List Char) :
    scanFrom mode pos (cs ++ rest) =
      scanFrom (.inName first (cs.reverse ++ text)) (pos + byteSize cs) rest := by
  cases cs with
  | nil => cases h
  | cons c cs =>
    obtain ⟨hc, hcs⟩ : isNameStart c = true ∧ ∀ d ∈ cs, isNameChar d = true := by
      simpa [isSegment] using h
    rw [List.cons_append, scanFrom_of_inner_step (hstart c hc), scanFrom_inName_chars hcs,
      List.reverse_cons, List.append_assoc, List.singleton_append, byteSize_cons, Nat.add_assoc]

/-- A dotted name is read to its end, wherever its first character leads into a name. -/
theorem scanFrom_dotted_from {mode : Mode} (h : Dotted cs)
    (hstart : ∀ c, isNameStart c = true → step mode pos c = .ok ([], .inName first (c :: text)))
    (rest : List Char) :
    scanFrom mode pos (cs ++ rest) =
      scanFrom (.inName first (cs.reverse ++ text)) (pos + byteSize cs) rest := by
  -- Each further segment is read from the mode after its dot, with all that was read before it.
  induction h generalizing mode text pos with
  | segment h => exact scanFrom_segment h hstart rest
  | dot h _ ih =>
    rename_i cs ds _
    have hdot : step (.inName first (cs.reverse ++ text)) (pos + byteSize cs) '.' =
        .ok ([], .afterDot first (cs.reverse ++ text) (pos + byteSize cs)) := rfl
    -- The next segment starts behind the dot.
    have hnext : ∀ c, isNameStart c = true →
        step (.afterDot first (cs.reverse ++ text) (pos + byteSize cs))
            (pos + byteSize cs + Char.utf8Size '.') c =
          .ok ([], .inName first (c :: '.' :: (cs.reverse ++ text))) := by
      intro c hc
      rw [step, if_pos hc]
    rw [List.append_assoc, scanFrom_segment h hstart, List.cons_append, scanFrom_of_inner_step hdot,
      ih hnext]
    simp [Nat.add_assoc]

end

/-- A dotted name is read to its end. -/
theorem scanFrom_dotted {cs : List Char} (h : Dotted cs) (pos : Nat) (rest : List Char) :
    scanFrom .between pos (cs ++ rest) =
      scanFrom (.inName pos cs.reverse) (pos + byteSize cs) rest := by
  have hstart : ∀ c, isNameStart c = true → step .between pos c = .ok ([], .inName pos [c]) := by
    intro c hc
    rw [step, start_of_isNamePart (isNamePart_of_isNameChar (isNameChar_of_isNameStart hc)),
      if_pos hc]
  rw [scanFrom_dotted_from h hstart, List.append_nil]

/-- A dotted name is one token. -/
theorem spell_dotted {cs : List Char} (h : Dotted cs) :
    spell .between cs = .ok [.ident (String.ofList cs)] := by
  have hread := scanFrom_dotted h 0 []
  rw [List.append_nil] at hread
  rw [spell, hread]
  show Except.ok [Token.ident (String.ofList cs.reverse.reverse)] = _
  rw [List.reverse_reverse]

/-- The name that the scanner is in has been dotted so far. -/
def Mode.Named : Mode → Prop
  | .between => True
  | .inName _ text => Dotted text.reverse
  | .afterDot _ text _ => Dotted text.reverse

/-- What can be read between tokens leads into a dotted name or into none. -/
theorem start_named {c : Char} {us : List Token} {next : Mode}
    (h : taken (start 0 c) = .ok (us, next)) :
    next.Named ∧ ∀ n, .ident n ∈ us → Dotted n.toList := by
  unfold start at h
  split at h
  · cases h
    exact ⟨trivial, by simp⟩
  · split at h
    · rename_i hc
      cases h
      exact ⟨.segment (isSegment_singleton hc), by simp⟩
    · split at h
      · rename_i t ht
        cases h
        refine ⟨trivial, fun n hn => ?_⟩
        -- No mark is a name.
        obtain rfl : Token.ident n = t := by simpa using hn
        cases ofMark?_eq_some.mp ht
      · cases h

/-- A step keeps names dotted. -/
theorem step_named {mode next : Mode} {c : Char} {us : List Token} (hmode : mode.Named)
    (h : taken (step mode 0 c) = .ok (us, next)) :
    next.Named ∧ ∀ n, .ident n ∈ us → Dotted n.toList := by
  cases mode with
  | between => exact start_named h
  | inName first text =>
    cases hpart : isNamePart c with
    | true =>
      cases hchar : isNameChar c with
      | true =>
        rw [step, if_pos hchar] at h
        cases h
        refine ⟨?_, by simp⟩
        show Dotted (c :: text).reverse
        rw [List.reverse_cons]
        exact hmode.char hchar
      | false =>
        obtain rfl := eq_dot_of_isNamePart hpart hchar
        cases h
        exact ⟨hmode, by simp⟩
    | false =>
      -- The name ends here, and what is read after it is read as between tokens.
      obtain ⟨vs, hvs, rfl⟩ := taken_step_inName_eq_ok hpart h
      obtain ⟨hnext, hnames⟩ := start_named hvs
      refine ⟨hnext, fun n hn => ?_⟩
      rcases List.mem_cons.mp hn with hname | hn
      · obtain rfl := Token.ident.inj hname
        rw [String.toList_ofList]
        exact hmode
      · exact hnames n hn
  | afterDot first text dot =>
    rw [step] at h
    split at h
    · rename_i hc
      cases h
      refine ⟨?_, by simp⟩
      show Dotted (c :: '.' :: text).reverse
      rw [List.reverse_cons, List.reverse_cons, List.append_assoc]
      exact hmode.next hc
    · cases h

/-- The names that are scanned from any mode are dotted, if the name so far is. -/
theorem dotted_of_spell_from {mode : Mode} {text : List Char} {ts : List Token} {n : String}
    (hmode : mode.Named) (h : spell mode text = .ok ts) (hn : .ident n ∈ ts) :
    Dotted n.toList := by
  -- Induction on the text: every step keeps names dotted, those it completes and the one it is in.
  induction text generalizing mode ts with
  | nil =>
    cases mode with
    | between =>
      cases h
      cases hn
    | inName first text =>
      cases h
      obtain rfl : n = String.ofList text.reverse := by simpa [nameToken] using hn
      rw [String.toList_ofList]
      exact hmode
    | afterDot first text dot => cases h
  | cons c cs ih =>
    obtain ⟨us, next, vs, hstep, hvs, rfl⟩ := spell_cons_eq_ok h
    obtain ⟨hnext, hus⟩ := step_named hmode hstep
    rcases List.mem_append.mp hn with hn | hn
    · exact hus n hn
    · exact ih hnext hvs hn

/-- The names that the scanner gives are dotted. -/
theorem dotted_of_spell {text : List Char} {ts : List Token} {n : String}
    (h : spell .between text = .ok ts) (hn : .ident n ∈ ts) : Dotted n.toList := by
  have hmode : Mode.between.Named := trivial
  exact dotted_of_spell_from hmode h hn

/-- A name is dotted exactly if it is scanned as one token. -/
theorem dotted_iff {cs : List Char} :
    Dotted cs ↔ spell .between cs = .ok [.ident (String.ofList cs)] := by
  constructor
  · exact spell_dotted
  · -- The single token is that name.
    intro h
    have hdotted := dotted_of_spell h List.mem_cons_self
    rwa [String.toList_ofList] at hdotted

end Token

/-! ## Types -/

namespace Ty

/-- What becomes of a text, up to the place of a fault. -/
def outcome (s : String) : Except SyntaxError.Cause Ty :=
  (parse s).mapError (·.cause)

/-- A text spells a type whether or not one looks at places. -/
theorem outcome_eq_ok {s : String} {t : Ty} : outcome s = .ok t ↔ parse s = .ok t := by
  unfold outcome
  cases parse s with
  | error e => exact ⟨nofun, nofun⟩
  | ok u =>
    constructor
    · intro h
      exact congrArg Except.ok (Except.ok.inj h)
    · intro h
      exact congrArg Except.ok (Except.ok.inj h)

/-- A text is scanned, and what it spells is read. -/
theorem outcome_eq (s : String) :
    outcome s = (Token.spell .between s.toList >>= ofSpelling) := by
  unfold outcome parse parseChars Token.spell Token.scan
  -- The reader of located tokens is the machine on bare ones.
  cases Token.scanFrom .between 0 s.toList with
  | error e => rfl
  | ok tokens => exact Progress.mapError_read (byteSize s.toList) .start tokens

/-- A text spells a type exactly if the grammar derives the type from what is scanned. -/
theorem parse_eq_ok {s : String} {t : Ty} :
    parse s = .ok t ↔ ∃ ts, Token.spell .between s.toList = .ok ts ∧ Spells ts t := by
  rw [← outcome_eq_ok, outcome_eq]
  cases Token.spell .between s.toList with
  | error cause => simp [bind, Except.bind]
  | ok ts => simpa [bind, Except.bind] using ofSpelling_eq_ok

/-- What stands between two parts of a text that are scanned by themselves: blanks, or nothing if no
    name can go from one part on into the other. -/
def Gap (a w b : String) : Prop :=
  (∀ c ∈ w.toList, Token.isBlank c = true) ∧ (Token.Apart a.toList b.toList ∨ w ≠ "")

/-- Parts with a gap between them are scanned one after the other, and then read as one. -/
theorem outcome_gap {a w b : String} (h : Gap a w b) :
    outcome (a ++ w ++ b) =
      (Token.andThen (Token.spell .between a.toList) (Token.spell .between b.toList) >>=
        ofSpelling) := by
  obtain ⟨hw, h⟩ := h
  have hne : Token.Apart a.toList b.toList ∨ w.toList ≠ [] :=
    h.imp_right fun hw => mt String.toList_eq_nil_iff.mp hw
  rw [outcome_eq, String.toList_append, String.toList_append, Token.spell_gap hw hne]

/-- No blanks of a text that spells a type are needed: they do not stand between two names. -/
theorem apart_of_parse {a w b : String} {t : Ty} (h : Gap a w b)
    (hparse : parse (a ++ w ++ b) = .ok t) : Token.Apart a.toList b.toList := by
  apply Classical.byContradiction
  intro hapart
  rw [← outcome_eq_ok, outcome_gap h] at hparse
  cases hscan : Token.andThen (Token.spell .between a.toList) (Token.spell .between b.toList) with
  | error cause =>
    rw [hscan] at hparse
    cases hparse
  | ok ts =>
    rw [hscan] at hparse
    have hspells : Spells ts t := ofSpelling_eq_ok.mp hparse
    obtain ⟨us, vs, hus, hvs, rfl⟩ := Token.andThen_eq_ok.mp hscan
    -- Two names would stand side by side, which no type has.
    obtain ⟨us', m, n, vs', hnames⟩ := Token.exists_names_of_not_apart hapart hus hvs
    rw [hnames] at hspells
    exact Spells.not_adjacent hspells

/-- A text spells a type exactly if it can be scanned and the grammar derives the type from its
    tokens. The type is then the only one. What becomes of a text depends on its tokens alone, so
    any blanks between tokens can stand in the place of others, also in that of none; and they can
    all be taken out of a text that spells a type. -/
theorem parse_follows_grammar :
    (∀ (s : String) (t : Ty), parse s = .ok t ↔
      ∃ tokens, Token.scan s.toList = .ok tokens ∧ Spells (tokens.map (·.value)) t) ∧
    (∀ (ts : List Token) (t t' : Ty), Spells ts t → Spells ts t' → t = t') ∧
    (∀ s s' : String, Token.spelling (Token.scan s.toList) = Token.spelling (Token.scan s'.toList) →
      outcome s = outcome s') ∧
    (∀ a w w' b : String, Gap a w b → Gap a w' b → outcome (a ++ w ++ b) = outcome (a ++ w' ++ b)) ∧
    ∀ (a w b : String) (t : Ty), Gap a w b → parse (a ++ w ++ b) = .ok t →
      parse (a ++ b) = .ok t := by
  refine ⟨fun s t => ?_, fun ts t t' => Spells.unique, fun s s' h => ?_, fun a w w' b h h' => ?_,
    fun a w b t h hparse => ?_⟩
  · rw [parse_eq_ok]
    unfold Token.spell Token.scan
    cases Token.scanFrom .between 0 s.toList with
    | error e => simp [Token.spelling]
    | ok tokens => simp [Token.spelling]
  · -- The outcome depends on the text through its tokens alone.
    rw [outcome_eq, outcome_eq]
    exact congrArg (· >>= ofSpelling) h
  · rw [outcome_gap h, outcome_gap h']
  · -- The blanks are not needed, so there may be none.
    have hnone : Gap a "" b := ⟨nofun, .inl (apart_of_parse h hparse)⟩
    have hsame : outcome (a ++ "" ++ b) = outcome (a ++ w ++ b) := by
      rw [outcome_gap h, outcome_gap hnone]
    rwa [String.append_empty, outcome_eq_ok.mpr hparse, outcome_eq_ok] at hsame

/-- The blanks behind the name of a definition may be there or not, and a `?` makes the argument a
    `Nullable`. -/
theorem parse_spaced :
    let t := Ty.generic "Query" [.generic "Nullable" [.named "long"]]
    parse (" Query" ++ " " ++ "< long? > ") = .ok t ∧ parse (" Query" ++ "< long? > ") = .ok t := by
  intro t
  obtain ⟨hgrammar, -, -, -, hremove⟩ := parse_follows_grammar
  have hgap : Gap " Query" " " "< long? > " := ⟨by simp [Token.isBlank], .inr (by decide)⟩
  have hspaced : parse (" Query" ++ " " ++ "< long? > ") = .ok t :=
    (hgrammar _ _).mpr ⟨_, rfl, .base (.applied "Query" (.one (.marked (.name "long"))))⟩
  exact ⟨hspaced, hremove _ _ _ _ hgap hspaced⟩

end Ty

end Retarget
