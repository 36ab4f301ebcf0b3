import Retarget.Proofs.Scanning

/-!
# The scanner partitions its text

The tokens of a text are cut out of it by their spans: what a span covers is a mark, or a dotted
name that cannot go on, and all else is blank. A text has at most one such partition, because each
of its cuts is forced by what comes before it, and the scanner finds it if there is one.

Both the scanner and the partitions of a text obey the same equations, one for each way in which a
text can begin, and the two agree by induction over these.

## Key results

- `Token.IsPartition`: located tokens are what a text consists of, blanks apart
- `Token.cutInduction`: induction over a text from cut to cut
- `Token.isPartition_lexeme`, `Token.scanFrom_lexeme`: the equations at a token
- `Token.scanFrom_eq_ok_iff`: the scanner gives the partition
-/

namespace Retarget

/-- Characters take bytes. -/
theorem byteSize_pos {cs : List Char} (h : cs ≠ []) : 0 < byteSize cs := by
  cases cs with
  | nil => exact absurd rfl h
  | cons c cs =>
    rw [byteSize_cons]
    exact Nat.add_pos_left c.utf8Size_pos _

/-- What takes no bytes is empty. -/
theorem eq_nil_of_byteSize {cs : List Char} (h : byteSize cs = 0) : cs = [] :=
  Classical.byContradiction fun hne => Nat.ne_of_gt (byteSize_pos hne) h

/-- A cut that is not before another one lies behind it. -/
theorem exists_append_of_byteSize_le {a b x y : List Char} (h : a ++ b = x ++ y)
    (hle : byteSize a ≤ byteSize x) : ∃ z, x = a ++ z ∧ b = z ++ y := by
  rcases List.append_eq_append_iff.mp h with ⟨z, hx, hb⟩ | ⟨z, ha, hy⟩
  · exact ⟨z, hx, hb⟩
  · -- What is between the cuts takes no bytes, so they are the same.
    have hz : z = [] := by
      rw [ha, byteSize_append] at hle
      exact eq_nil_of_byteSize (by omega)
    subst hz
    exact ⟨[], by simpa using ha.symm, by simpa using hy.symm⟩

/-- Whether a span covers a byte. -/
def Span.Covers (s : Span) (i : Nat) : Prop := s.start ≤ i ∧ i < s.stop

namespace Token

/-! ## Names that end -/

/-- Whether a name before a text would go on into it, with a further character or with a dot and
    another segment. -/
def ContinuesName (text : List Char) : Prop :=
  (∃ c cs, text = c :: cs ∧ isNameChar c = true) ∨
    ∃ c cs, text = '.' :: c :: cs ∧ isNameStart c = true

/-- A segment begins with a character that can start one. -/
theorem exists_cons_of_isSegment {cs : List Char} (h : isSegment cs = true) :
    ∃ c ds, cs = c :: ds ∧ isNameStart c = true := by
  cases cs with
  | nil => cases h
  | cons c cs =>
    simp only [isSegment, Bool.and_eq_true] at h
    exact ⟨c, cs, rfl, h.1⟩

/-- All characters of a segment can stand in one. -/
theorem isNameChar_of_isSegment {cs : List Char} (h : isSegment cs = true) :
    ∀ c ∈ cs, isNameChar c = true := by
  cases cs with
  | nil => cases h
  | cons c cs =>
    simp only [isSegment, Bool.and_eq_true, List.all_eq_true] at h
    exact List.forall_mem_cons.mpr ⟨isNameChar_of_isNameStart h.1, h.2⟩

/-- Segments have no dots. -/
theorem dot_notMem_of_isSegment {cs : List Char} (h : isSegment cs = true) : '.' ∉ cs := by
  intro hdot
  cases isNameChar_of_isSegment h '.' hdot

namespace Dotted

/-- All characters of a dotted name are parts of names. -/
theorem isNamePart_of_mem {cs : List Char} (h : Dotted cs) : ∀ c ∈ cs, isNamePart c = true := by
  induction h with
  | segment h => exact fun c hc => isNamePart_of_isNameChar (isNameChar_of_isSegment h c hc)
  | dot h _ ih =>
    intro c hc
    simp only [List.mem_append, List.mem_cons] at hc
    rcases hc with hc | rfl | hc
    · exact isNamePart_of_isNameChar (isNameChar_of_isSegment h c hc)
    · rfl
    · exact ih c hc

/-- A dotted name begins with the start of a segment. -/
theorem exists_cons {cs : List Char} (h : Dotted cs) :
    ∃ c ds, cs = c :: ds ∧ isNameStart c = true := by
  cases h with
  | segment h =>
    obtain ⟨c, ds, rfl, hc⟩ := exists_cons_of_isSegment h
    exact ⟨c, ds, rfl, hc⟩
  | dot h _ =>
    obtain ⟨c, ds, rfl, hc⟩ := exists_cons_of_isSegment h
    exact ⟨c, _, rfl, hc⟩

/-- Another segment follows each dot of a dotted name. -/
theorem exists_cons_of_dot {cs a b : List Char} (h : Dotted cs) (hcs : cs = a ++ '.' :: b) :
    ∃ c ds, b = c :: ds ∧ isNameStart c = true := by
  induction h generalizing a with
  | segment h => exact absurd (by simp [hcs]) (dot_notMem_of_isSegment h)
  | dot h hs ih =>
    rename_i cs ds
    rcases List.append_eq_append_iff.mp hcs with ⟨z, -, hz⟩ | ⟨z, hz, hb⟩
    · -- The dot is the one after the first segment, or one behind it.
      cases z with
      | nil =>
        obtain rfl := (List.cons.inj hz).2
        exact hs.exists_cons
      | cons d z => exact ih (List.cons.inj hz).2
    · cases z with
      | nil =>
        obtain rfl := (List.cons.inj hb).2
        exact hs.exists_cons
      | cons d z =>
        obtain rfl := (List.cons.inj hb).1
        exact absurd (by simp [hz]) (dot_notMem_of_isSegment h)

/-- Wherever a dotted name is cut, the first part goes on into the second. -/
theorem continuesName {cs ds : List Char} (h : Dotted (cs ++ ds)) (hds : ds ≠ [])
    (rest : List Char) : ContinuesName (ds ++ rest) := by
  obtain ⟨c, ds, rfl⟩ := List.exists_cons_of_ne_nil hds
  have hpart : isNamePart c = true := h.isNamePart_of_mem c (by simp)
  cases hchar : isNameChar c with
  | true => exact .inl ⟨c, ds ++ rest, rfl, hchar⟩
  | false =>
    obtain rfl := eq_dot_of_isNamePart hpart hchar
    obtain ⟨d, ds, rfl, hd⟩ := h.exists_cons_of_dot rfl
    exact .inr ⟨d, ds ++ rest, rfl, hd⟩

/-- No dotted name is longer at its place than one that cannot go on. -/
theorem isPrefix_of_ended {cs ds rest : List Char} (h : Dotted ds) (hend : ¬ ContinuesName rest)
    (hbegins : ds <+: cs ++ rest) : ds <+: cs := by
  obtain ⟨x, hx⟩ := hbegins
  -- The two are cut at the same place, or one of them goes on behind the other.
  rcases List.append_eq_append_iff.mp hx with ⟨z, hcs, -⟩ | ⟨z, rfl, hrest⟩
  · exact ⟨z, hcs.symm⟩
  · by_cases hz : z = []
    · exact ⟨[], by simp [hz]⟩
    · rw [hrest] at hend
      exact absurd (h.continuesName hz x) hend

/-- A dotted name goes on as long as it can. -/
theorem exists_ended (rest : List Char) {cs : List Char} (h : Dotted cs) :
    ∃ ds rest', cs ++ rest = ds ++ rest' ∧ Dotted ds ∧ ¬ ContinuesName rest' := by
  -- If the name can go on it does, by a character or by a segment, and the rest gets shorter.
  by_cases hend : ContinuesName rest
  · rcases hend with ⟨c, tail, rfl, hc⟩ | ⟨c, tail, rfl, hc⟩
    · obtain ⟨ds, rest', heq, hds⟩ := exists_ended tail (h.char hc)
      exact ⟨ds, rest', by rw [← heq]; simp, hds⟩
    · obtain ⟨ds, rest', heq, hds⟩ := exists_ended tail (h.next hc)
      exact ⟨ds, rest', by rw [← heq]; simp, hds⟩
  · exact ⟨cs, rest, rfl, h, hend⟩
termination_by rest.length

end Dotted

/-! ## Cutting a text -/

/-- Whether a token stands for some characters, given what comes after them. A name is not cut as
    long as it can go on. -/
inductive Lexeme : Token → List Char → List Char → Prop where
  | mark {c : Char} {t : Token} {rest : List Char} (h : IsMark c t) : Lexeme t [c] rest
  | name {cs rest : List Char} (h : Dotted cs) (hend : ¬ ContinuesName rest) :
      Lexeme (.ident (String.ofList cs)) cs rest

/-- A text is empty, or it begins with blanks, or with a token, or with a stray character. -/
theorem cutInduction {motive : List Char → Prop} (nil : motive [])
    (blanks : ∀ cs rest, cs ≠ [] → (∀ c ∈ cs, isBlank c = true) →
      (∀ c ∈ rest.head?, isBlank c = false) → motive rest → motive (cs ++ rest))
    (lexeme : ∀ t cs rest, Lexeme t cs rest → motive rest → motive (cs ++ rest))
    (stray : ∀ c cs, isBlank c = false → isNameStart c = false → ofMark? c = none →
      motive (c :: cs))
    (text : List Char) : motive text := by
  cases text with
  | nil => exact nil
  | cons c cs =>
    cases hblank : isBlank c with
    | true =>
      -- All blanks in a row are taken at once.
      have hshorter : (cs.dropWhile isBlank).length ≤ cs.length :=
        (List.dropWhile_sublist _).length_le
      have hsplit : c :: cs = (c :: cs.takeWhile isBlank) ++ cs.dropWhile isBlank := by
        rw [List.cons_append, List.takeWhile_append_dropWhile]
      rw [hsplit]
      refine blanks _ _ (List.cons_ne_nil _ _) ?_ ?_ (cutInduction nil blanks lexeme stray _)
      · exact List.forall_mem_cons.mpr ⟨hblank, List.all_eq_true.mp List.all_takeWhile⟩
      · intro d hd
        have hhead := List.head?_dropWhile_not isBlank cs
        rwa [Option.mem_def.mp hd] at hhead
    | false =>
      cases hname : isNameStart c with
      | true =>
        -- A name begins here, and goes on as long as it can.
        obtain ⟨ds, rest, hcut, hds, hend⟩ :=
          Dotted.exists_ended cs (.segment (isSegment_singleton hname))
        have hshorter : rest.length ≤ cs.length := by
          have hlen := congrArg List.length hcut
          obtain ⟨d, ds, rfl, -⟩ := hds.exists_cons
          simp at hlen
          omega
        rw [← List.singleton_append, hcut]
        exact lexeme _ _ _ (.name hds hend) (cutInduction nil blanks lexeme stray rest)
      | false =>
        cases hmark : ofMark? c with
        | some t =>
          exact lexeme t [c] cs (.mark (ofMark?_eq_some.mp hmark))
            (cutInduction nil blanks lexeme stray cs)
        | none => exact stray c cs hblank hname hmark
termination_by text.length

/-! ## The scanner at a cut -/

/-- Blanks between tokens are passed over. -/
theorem scanFrom_blanks {cs : List Char} (h : ∀ c ∈ cs, isBlank c = true) (pos : Nat)
    (rest : List Char) :
    scanFrom .between pos (cs ++ rest) = scanFrom .between (pos + byteSize cs) rest := by
  induction cs generalizing pos with
  | nil => rfl
  | cons c cs ih =>
    have hstep : step .between pos c = .ok ([], .between) := by
      rw [step, start, if_pos (h c List.mem_cons_self)]
    rw [List.cons_append, scanFrom_of_inner_step hstep,
      ih fun d hd => h d (List.mem_cons_of_mem _ hd), byteSize_cons, Nat.add_assoc]

/-- A name that cannot go on is a token, and what follows it is scanned by itself. -/
theorem scanFrom_inName_ended {rest : List Char} (h : ¬ ContinuesName rest) (first pos : Nat)
    (text : List Char) :
    scanFrom (.inName first text) pos rest =
      (scanFrom .between pos rest).map (nameToken first text pos :: ·) := by
  cases rest with
  | nil => rfl
  | cons c cs =>
    have hchar : isNameChar c = false := Bool.eq_false_iff.mpr fun hc => h (.inl ⟨c, cs, rfl, hc⟩)
    by_cases hdot : c = '.'
    · subst hdot
      -- The scanner goes past the dot before it finds that no segment follows.
      have hstep : step (.inName first text) pos '.' = .ok ([], .afterDot first text pos) := rfl
      rw [scanFrom_of_inner_step hstep]
      cases cs with
      | nil => rfl
      | cons d ds =>
        have hd : isNameStart d = false := Bool.eq_false_iff.mpr fun hd => h (.inr ⟨d, ds, rfl, hd⟩)
        simp only [scanFrom, step, hd]
        rfl
    · -- Any other character ends the name and is read by itself.
      have hstep : step (.inName first text) pos c =
          (start pos c).map fun r => (nameToken first text pos :: r.1, r.2) := by
        rw [step, hchar, if_neg Bool.false_ne_true, if_neg hdot]
        cases start pos c <;> rfl
      cases hstart : start pos c with
      | error e =>
        rw [hstart] at hstep
        rw [scanFrom, scanFrom, hstep, step, hstart]
        rfl
      | ok r =>
        rw [hstart] at hstep
        have hbetween : step .between pos c = .ok r := hstart
        rw [scanFrom_of_step hstep, scanFrom_of_step hbetween]
        cases scanFrom r.2 (pos + c.utf8Size) cs <;> rfl

/-- What a token stands for is scanned before the rest. -/
theorem scanFrom_lexeme {t : Token} {cs rest : List Char} (h : Lexeme t cs rest) (pos : Nat) :
    scanFrom .between pos (cs ++ rest) =
      (scanFrom .between (pos + byteSize cs) rest).map (⟨t, ⟨pos, pos + byteSize cs⟩⟩ :: ·) := by
  cases h with
  | mark h =>
    rename_i c
    have hstep : step .between pos c = .ok ([⟨t, ⟨pos, pos + c.utf8Size⟩⟩], .between) := by
      cases h <;> rfl
    exact scanFrom_of_step hstep rest
  | name h hend =>
    -- A name is read to its end, and becomes a token when it cannot go on.
    rw [scanFrom_dotted h, scanFrom_inName_ended hend, nameToken, List.reverse_reverse]

/-- A character that is no blank, starts no name and is no mark is the fault of the text. -/
theorem scanFrom_stray {c : Char} (hblank : isBlank c = false) (hname : isNameStart c = false)
    (hmark : ofMark? c = none) (pos : Nat) (cs : List Char) :
    scanFrom .between pos (c :: cs) = .error (strayCharacter c pos) := by
  rw [scanFrom, step, start, hblank, hname, hmark]
  rfl

/-! ## Partitions -/

/-- Whether a blank stands at byte `i` of a text that starts at byte `pos`. -/
def BlankAt (pos : Nat) (text : List Char) (i : Nat) : Prop :=
  ∃ before c after, text = before ++ c :: after ∧ i = pos + byteSize before ∧ isBlank c = true

/-- Whether the span of a token cuts what it stands for out of a text that starts at byte `pos`. -/
def LexemeAt (pos : Nat) (text : List Char) (tok : Located Token) : Prop :=
  ∃ before cs after, text = before ++ (cs ++ after) ∧
    tok.span = ⟨pos + byteSize before, pos + byteSize before + byteSize cs⟩ ∧
    Lexeme tok.value cs after

/-- Whether located tokens, one after the other, are what a text that starts at byte `pos` consists
    of, blanks apart. -/
structure IsPartition (pos : Nat) (text : List Char) (tokens : List (Located Token)) : Prop where
  nonempty : ∀ tok ∈ tokens, tok.span.start < tok.span.stop
  inBounds : ∀ tok ∈ tokens, pos ≤ tok.span.start ∧ tok.span.stop ≤ pos + byteSize text
  increasing : tokens.Pairwise fun a b => a.span.stop ≤ b.span.start
  blanks : ∀ i, pos ≤ i → i < pos + byteSize text → (∀ tok ∈ tokens, ¬ tok.span.Covers i) →
    BlankAt pos text i
  lexemes : ∀ tok ∈ tokens, LexemeAt pos text tok

section

variable {pos i : Nat} {a b : List Char} {tok : Located Token}

/-- Behind a cut, the blanks of a text are those of the part behind it. -/
theorem blankAt_append (hi : pos + byteSize a ≤ i) :
    BlankAt pos (a ++ b) i ↔ BlankAt (pos + byteSize a) b i := by
  constructor
  · rintro ⟨before, c, after, htext, rfl, hc⟩
    obtain ⟨z, rfl, rfl⟩ := exists_append_of_byteSize_le htext (by omega)
    exact ⟨z, c, after, rfl, by simp [Nat.add_assoc], hc⟩
  · rintro ⟨before, c, after, rfl, rfl, hc⟩
    exact ⟨a ++ before, c, after, by simp, by simp [Nat.add_assoc], hc⟩

/-- Behind a cut, the tokens that a text can be cut into are those of the part behind it. -/
theorem lexemeAt_append (hstart : pos + byteSize a ≤ tok.span.start) :
    LexemeAt pos (a ++ b) tok ↔ LexemeAt (pos + byteSize a) b tok := by
  constructor
  · rintro ⟨before, cs, after, htext, hspan, hcs⟩
    rw [hspan] at hstart
    obtain ⟨z, rfl, rfl⟩ := exists_append_of_byteSize_le htext (Nat.le_of_add_le_add_left hstart)
    exact ⟨z, cs, after, rfl, by simp [hspan, Nat.add_assoc], hcs⟩
  · rintro ⟨before, cs, after, rfl, hspan, hcs⟩
    exact ⟨a ++ before, cs, after, by simp, by simp [hspan, Nat.add_assoc], hcs⟩

end

/-- A token stands for some characters. -/
theorem Lexeme.ne_nil {t : Token} {cs rest : List Char} (h : Lexeme t cs rest) : cs ≠ [] := by
  cases h with
  | mark _ => exact List.cons_ne_nil _ _
  | name h _ =>
    obtain ⟨c, ds, rfl, -⟩ := h.exists_cons
    exact List.cons_ne_nil _ _

namespace LexemeAt

variable {pos : Nat} {text : List Char} {tok : Located Token}

/-- The span of a token is not empty. -/
theorem start_lt_stop (h : LexemeAt pos text tok) : tok.span.start < tok.span.stop := by
  obtain ⟨before, cs, after, -, hspan, hcs⟩ := h
  have := byteSize_pos hcs.ne_nil
  simp [hspan]
  omega

/-- The span of a token lies in the text. -/
theorem inBounds (h : LexemeAt pos text tok) :
    pos ≤ tok.span.start ∧ tok.span.stop ≤ pos + byteSize text := by
  obtain ⟨before, cs, after, rfl, hspan, -⟩ := h
  simp [hspan]
  omega

end LexemeAt

namespace IsPartition

variable {pos : Nat} {a b : List Char} {pre tokens : List (Located Token)}

/-- What is behind a cut is partitioned by the tokens behind it. -/
theorem behind (h : IsPartition pos (a ++ b) (pre ++ tokens))
    (hpre : ∀ tok ∈ pre, tok.span.stop ≤ pos + byteSize a)
    (htokens : ∀ tok ∈ tokens, pos + byteSize a ≤ tok.span.start) :
    IsPartition (pos + byteSize a) b tokens where
  nonempty tok htok := h.nonempty tok (List.mem_append_right _ htok)
  inBounds tok htok := by
    have hbounds := h.inBounds tok (List.mem_append_right _ htok)
    rw [byteSize_append] at hbounds
    exact ⟨htokens tok htok, by omega⟩
  increasing := (List.pairwise_append.mp h.increasing).2.1
  blanks i hpos hi hfree := by
    refine (blankAt_append hpos).mp (h.blanks i (by omega) (by rw [byteSize_append]; omega) ?_)
    -- A byte behind the cut is covered by no token before it.
    intro tok htok hcovers
    rcases List.mem_append.mp htok with htok | htok
    · have := hpre tok htok
      have := hcovers.2
      omega
    · exact hfree tok htok hcovers
  lexemes tok htok :=
    (lexemeAt_append (htokens tok htok)).mp (h.lexemes tok (List.mem_append_right _ htok))

/-- A partition of a part of a text, and one of what is before it, are one of the whole. -/
theorem prepend (h : IsPartition (pos + byteSize a) b tokens)
    (hincreasing : pre.Pairwise fun x y => x.span.stop ≤ y.span.start)
    (hpre : ∀ tok ∈ pre, tok.span.stop ≤ pos + byteSize a)
    (hlexemes : ∀ tok ∈ pre, LexemeAt pos (a ++ b) tok)
    (hblanks : ∀ i, pos ≤ i → i < pos + byteSize a → (∀ tok ∈ pre, ¬ tok.span.Covers i) →
      BlankAt pos (a ++ b) i) :
    IsPartition pos (a ++ b) (pre ++ tokens) := by
  have hall : ∀ tok ∈ pre ++ tokens, LexemeAt pos (a ++ b) tok := by
    intro tok htok
    rcases List.mem_append.mp htok with htok | htok
    · exact hlexemes tok htok
    · exact (lexemeAt_append (h.inBounds tok htok).1).mpr (h.lexemes tok htok)
  refine ⟨fun tok htok => (hall tok htok).start_lt_stop, fun tok htok => (hall tok htok).inBounds,
    ?_, ?_, hall⟩
  · refine List.pairwise_append.mpr ⟨hincreasing, h.increasing, fun x hx y hy => ?_⟩
    exact Nat.le_trans (hpre x hx) (h.inBounds y hy).1
  · intro i hpos hi hfree
    rw [byteSize_append] at hi
    -- A byte that no token covers is before the cut or behind it.
    by_cases hcut : i < pos + byteSize a
    · exact hblanks i hpos hcut fun tok htok => hfree tok (List.mem_append_left _ htok)
    · have hcut : pos + byteSize a ≤ i := by omega
      refine (blankAt_append hcut).mpr (h.blanks i hcut (by omega) ?_)
      exact fun tok htok => hfree tok (List.mem_append_right _ htok)

end IsPartition

/-! ### The first cut -/

/-- No blank starts a name. -/
theorem not_isBlank_of_isNameStart {c : Char} (h : isNameStart c = true) : isBlank c = false := by
  rw [Bool.eq_false_iff]
  intro hblank
  rw [not_isNameStart_of_not_isNamePart (not_isNamePart_of_isBlank hblank)] at h
  cases h

/-- No mark is a blank. -/
theorem IsMark.not_isBlank {c : Char} {t : Token} (h : IsMark c t) : isBlank c = false := by
  cases h <;> rfl

/-- A character is one mark at most. -/
theorem IsMark.unique {c : Char} {t t' : Token} (h : IsMark c t) (h' : IsMark c t') : t = t' :=
  Option.some.inj ((ofMark?_eq_some.mpr h).symm.trans (ofMark?_eq_some.mpr h'))

/-- The first character of a token shows whether it is a name or a mark. -/
theorem Lexeme.head {t : Token} {c : Char} {cs rest : List Char} (h : Lexeme t (c :: cs) rest) :
    isNameStart c = true ∨ IsMark c t := by
  cases h with
  | mark h => exact .inr h
  | name h _ =>
    obtain ⟨d, ds, hcs, hd⟩ := h.exists_cons
    obtain rfl := (List.cons.inj hcs).1
    exact .inl hd

/-- No token begins with a blank. -/
theorem Lexeme.not_isBlank {t : Token} {c : Char} {cs rest : List Char}
    (h : Lexeme t (c :: cs) rest) : isBlank c = false :=
  h.head.elim not_isBlank_of_isNameStart IsMark.not_isBlank

/-- A text begins with one token at most. -/
theorem Lexeme.unique {t t' : Token} {cs cs' rest rest' : List Char} (h : Lexeme t cs rest)
    (h' : Lexeme t' cs' rest') (htext : cs ++ rest = cs' ++ rest') : t = t' ∧ cs = cs' := by
  -- No name begins with a mark.
  have hapart : ∀ {c : Char} {t : Token} {ds xs ys : List Char}, IsMark c t → Dotted ds →
      [c] ++ xs ≠ ds ++ ys := by
    intro c t ds xs ys hc hds heq
    obtain ⟨d, ds, rfl, hd⟩ := hds.exists_cons
    obtain rfl := (List.cons.inj heq).1
    rw [not_isNameStart_of_not_isNamePart hc.not_isNamePart] at hd
    cases hd
  -- Two marks, or two names neither of which can go on: a mark and a name begin differently.
  cases h with
  | mark hc =>
    cases h' with
    | mark hc' =>
      obtain rfl := (List.cons.inj htext).1
      exact ⟨hc.unique hc', rfl⟩
    | name hcs' _ => exact absurd htext (hapart hc hcs')
  | name hcs hend =>
    cases h' with
    | mark hc' => exact absurd htext.symm (hapart hc' hcs)
    | name hcs' hend' =>
      have hle : cs <+: cs' := hcs.isPrefix_of_ended hend' ⟨rest, htext⟩
      have hge : cs' <+: cs := hcs'.isPrefix_of_ended hend ⟨rest', htext.symm⟩
      obtain rfl : cs = cs' := hle.eq_of_length_le hge.length_le
      exact ⟨rfl, rfl⟩

/-- What begins a partitioned text is a blank, or else it is what the first token stands for. -/
theorem IsPartition.head {pos : Nat} {c : Char} {cs : List Char} {tokens : List (Located Token)}
    (h : IsPartition pos (c :: cs) tokens) :
    isBlank c = true ∨ ∃ t lexeme rest tokens', c :: cs = lexeme ++ rest ∧ Lexeme t lexeme rest ∧
      tokens = ⟨t, ⟨pos, pos + byteSize lexeme⟩⟩ :: tokens' := by
  by_cases hfree : ∀ tok ∈ tokens, ¬ tok.span.Covers pos
  · have hlt : pos < pos + byteSize (c :: cs) := Nat.lt_add_of_pos_right (byteSize_pos nofun)
    obtain ⟨before, d, after, htext, hpos, hd⟩ := h.blanks pos (Nat.le_refl _) hlt hfree
    obtain rfl : before = [] := eq_nil_of_byteSize (by omega)
    obtain rfl := (List.cons.inj htext).1
    exact .inl hd
  · simp only [Classical.not_forall, Classical.not_not] at hfree
    obtain ⟨tok, htok, hcovers⟩ := hfree
    cases tokens with
    | nil => cases htok
    | cons first tokens =>
      -- The token that covers the first byte is the first, for those before it would be empty.
      have hfirst : tok = first := by
        rcases List.mem_cons.mp htok with rfl | hmem
        · rfl
        · have hle := (List.pairwise_cons.mp h.increasing).1 tok hmem
          have hne := h.nonempty first List.mem_cons_self
          have hge := (h.inBounds first List.mem_cons_self).1
          have := hcovers.1
          omega
      subst hfirst
      obtain ⟨before, lexeme, rest, htext, hspan, hlexeme⟩ := h.lexemes tok List.mem_cons_self
      have hstart := hcovers.1
      simp only [hspan] at hstart
      obtain rfl : before = [] := eq_nil_of_byteSize (by omega)
      refine .inr ⟨tok.value, lexeme, rest, tokens, htext, hlexeme, ?_⟩
      have htok : tok = ⟨tok.value, tok.span⟩ := rfl
      rw [htok, hspan]
      rfl

/-! ### The equations -/

section

variable {pos : Nat} {tokens : List (Located Token)}

/-- The empty text consists of no tokens. -/
theorem isPartition_nil : IsPartition pos [] tokens ↔ tokens = [] := by
  constructor
  · intro h
    cases tokens with
    | nil => rfl
    | cons tok tokens =>
      have hne := h.nonempty tok List.mem_cons_self
      have hbounds := h.inBounds tok List.mem_cons_self
      rw [byteSize_nil] at hbounds
      omega
  · rintro rfl
    refine ⟨nofun, nofun, .nil, fun i hpos hi _ => ?_, nofun⟩
    rw [byteSize_nil] at hi
    omega

/-- A blank takes one byte. -/
theorem utf8Size_of_isBlank {c : Char} (h : isBlank c = true) : c.utf8Size = 1 := by
  simp only [isBlank, Bool.or_eq_true, decide_eq_true_eq] at h
  rcases h with ((rfl | rfl) | rfl) | rfl <;> rfl

/-- A blank belongs to no token. -/
theorem isPartition_blank {c : Char} {rest : List Char} (h : isBlank c = true) :
    IsPartition pos (c :: rest) tokens ↔ IsPartition (pos + c.utf8Size) rest tokens := by
  constructor
  · intro hp
    -- No token begins with the blank, so all begin behind it.
    have hbehind : ∀ tok ∈ tokens, pos + byteSize [c] ≤ tok.span.start := by
      intro tok htok
      obtain ⟨before, cs, after, htext, hspan, hcs⟩ := hp.lexemes tok htok
      cases before with
      | nil =>
        obtain ⟨d, ds, rfl⟩ := List.exists_cons_of_ne_nil hcs.ne_nil
        obtain rfl := (List.cons.inj htext).1
        rw [hcs.not_isBlank] at h
        cases h
      | cons d before =>
        obtain rfl := (List.cons.inj htext).1
        simp [hspan]
    have hnone : IsPartition pos ([c] ++ rest) ([] ++ tokens) := hp
    exact hnone.behind nofun hbehind
  · intro hp
    have hbehind : IsPartition (pos + byteSize [c]) rest tokens := hp
    -- The only byte before the cut is that of the blank.
    refine hbehind.prepend .nil nofun nofun fun i hpos hi _ => ?_
    have hsize := utf8Size_of_isBlank h
    simp only [byteSize_cons, byteSize_nil, hsize] at hi
    exact ⟨[], c, rest, rfl, by simp; omega, h⟩

/-- Blanks belong to no token, however many there are. -/
theorem isPartition_blanks {cs rest : List Char} (h : ∀ c ∈ cs, isBlank c = true) :
    IsPartition pos (cs ++ rest) tokens ↔ IsPartition (pos + byteSize cs) rest tokens := by
  induction cs generalizing pos with
  | nil => rfl
  | cons c cs ih =>
    rw [List.cons_append, isPartition_blank (h c List.mem_cons_self),
      ih fun d hd => h d (List.mem_cons_of_mem _ hd), byteSize_cons, Nat.add_assoc]

/-- A token has its place in every partition. -/
theorem isPartition_lexeme {t : Token} {cs rest : List Char} (h : Lexeme t cs rest) :
    IsPartition pos (cs ++ rest) tokens ↔ ∃ tokens',
      tokens = ⟨t, ⟨pos, pos + byteSize cs⟩⟩ :: tokens' ∧
        IsPartition (pos + byteSize cs) rest tokens' := by
  constructor
  · intro hp
    obtain ⟨c, cs, rfl⟩ := List.exists_cons_of_ne_nil h.ne_nil
    -- A partition begins with a blank or with a token, and the text with this one.
    rcases hp.head with hblank | ⟨t', lexeme, rest', tokens', htext, hlexeme, rfl⟩
    · rw [h.not_isBlank] at hblank
      cases hblank
    · have htext : (c :: cs) ++ rest = lexeme ++ rest' := htext
      obtain ⟨rfl, rfl⟩ := h.unique hlexeme htext
      refine ⟨tokens', rfl, ?_⟩
      obtain rfl := List.append_cancel_left htext
      have hfirst : IsPartition pos ((c :: cs) ++ rest)
          ([⟨t, ⟨pos, pos + byteSize (c :: cs)⟩⟩] ++ tokens') := hp
      have hincreasing := (List.pairwise_cons.mp hp.increasing).1
      exact hfirst.behind (by simp) hincreasing
  · rintro ⟨tokens', rfl, hp⟩
    have hspan : LexemeAt pos (cs ++ rest) ⟨t, ⟨pos, pos + byteSize cs⟩⟩ :=
      ⟨[], cs, rest, rfl, rfl, h⟩
    rw [← List.singleton_append]
    refine hp.prepend (List.pairwise_singleton ..) (by simp) (by simpa using hspan)
      fun i hpos hi hfree => ?_
    -- The token covers all that is before the cut.
    exact absurd ⟨hpos, hi⟩ (hfree _ List.mem_cons_self)

/-- A text that begins with a stray character has no partition. -/
theorem not_isPartition_stray {c : Char} {cs : List Char} (hblank : isBlank c = false)
    (hname : isNameStart c = false) (hmark : ofMark? c = none) :
    ¬ IsPartition pos (c :: cs) tokens := by
  intro hp
  -- A partition would begin with a blank or with a token.
  rcases hp.head with h | ⟨t, lexeme, rest, tokens', htext, hlexeme, -⟩
  · rw [hblank] at h
    cases h
  · obtain ⟨d, ds, rfl⟩ := List.exists_cons_of_ne_nil hlexeme.ne_nil
    obtain rfl := (List.cons.inj htext).1
    rcases hlexeme.head with h | h
    · rw [hname] at h
      cases h
    · rw [ofMark?_eq_some.mpr h] at hmark
      cases hmark

end

/-! ## The scanner gives the partition -/

/-- The scanner gives the partition of what is left of a text, from any place on. -/
theorem scanFrom_eq_ok_iff {pos : Nat} {text : List Char} {tokens : List (Located Token)} :
    scanFrom .between pos text = .ok tokens ↔ IsPartition pos text tokens := by
  -- By induction from cut to cut, as scanner and partitions obey the same equations.
  induction text using cutInduction generalizing pos tokens with
  | nil =>
    rw [isPartition_nil]
    exact ⟨fun h => (Except.ok.inj h).symm, fun h => congrArg Except.ok h.symm⟩
  | blanks cs rest _ hblank _ ih => rw [scanFrom_blanks hblank, isPartition_blanks hblank, ih]
  | lexeme t cs rest hlexeme ih =>
    rw [scanFrom_lexeme hlexeme, isPartition_lexeme hlexeme]
    simp only [← ih]
    cases scanFrom .between (pos + byteSize cs) rest <;> simp [Except.map, eq_comm]
  | stray c cs hblank hname hmark =>
    rw [scanFrom_stray hblank hname hmark]
    exact ⟨nofun, fun h => absurd h (not_isPartition_stray hblank hname hmark)⟩

/-- The tokens of a text are its only partition into marks, names that cannot go on and blanks, and
    the text cannot be scanned exactly if it has none. -/
theorem scan_gives_partition (text : List Char) :
    (∀ tokens, scan text = .ok tokens ↔ IsPartition 0 text tokens) ∧
      ((∃ e, scan text = .error e) ↔ ¬ ∃ tokens, IsPartition 0 text tokens) := by
  have hiff : ∀ tokens, scan text = .ok tokens ↔ IsPartition 0 text tokens :=
    fun tokens => scanFrom_eq_ok_iff
  -- That there is no partition is then that the scanner gives no tokens.
  refine ⟨hiff, ?_⟩
  simp only [← hiff]
  cases scan text <;> simp

-- A dot that no segment follows belongs to no name, so this text has no partition.
example : scan ['a', '.', 'b', '.', '1'] = .error ⟨.unexpectedCharacter '.', ⟨3, 4⟩⟩ := rfl

end Token

end Retarget
