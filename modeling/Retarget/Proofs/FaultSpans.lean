import Retarget.Proofs.FaultPlaces
import Retarget.Proofs.Manifests
import Retarget.Proofs.Placement

/-!
# Where a manifest is shown to be at fault

A text of a manifest that spells no type is at fault in its value, while the place that is reported
is one in the source. The bytes of the value are taken for those behind the first quote of the
literal. That is where they are written if the text stands on one line and is written as its value
up to there; all else that a literal may contain takes more bytes than what it stands for, so that
the reported place is too far to the front.

## Key results

- `Toml.Literal.Shows`: where a part of the value of a literal is written
- `Toml.Literal.exists_shows`: every part of the value is written somewhere
- `Toml.Literal.shows_shift_iff`: when the shift by one quote finds the place
- `Manifest.placed_ofEntries`: the texts of substitutions are those of literals
- `Manifest.exists_reports`: the literal with the fault that is reported
-/

namespace Retarget

/-! ## Where a part of a value is written -/

namespace Toml

namespace Piece

/-- Where pieces together stand for nothing, each of them does. -/
theorem values_eq_nil {ps : List Piece} (h : values ps = []) : ∀ p ∈ ps, p.value = [] :=
  List.flatMap_eq_nil_iff.mp h

/-- Pieces can be cut where their values are, with those between that stand for nothing apart. -/
theorem exists_cut {ps : List Piece} {a b : List Char} (hsmall : ∀ p ∈ ps, p.value.length ≤ 1)
    (h : values ps = a ++ b) :
    ∃ before gap after, ps = before ++ (gap ++ after) ∧ values before = a ∧ values gap = [] ∧
      values after = b ∧ (∀ p ∈ before.getLast?, p.value ≠ []) ∧
      ∀ p ∈ after.head?, p.value ≠ [] := by
  -- By induction over the pieces. No piece stands for more than one character, so that none is
  -- split by the cut.
  induction ps generalizing a with
  | nil =>
    obtain ⟨rfl, rfl⟩ := List.append_eq_nil_iff.mp h.symm
    exact ⟨[], [], [], rfl, rfl, rfl, rfl, nofun, nofun⟩
  | cons p ps ih =>
    have hps : ∀ q ∈ ps, q.value.length ≤ 1 := fun q hq => hsmall q (List.mem_cons_of_mem _ hq)
    have hp := hsmall p List.mem_cons_self
    rw [values_cons] at h
    cases hvalue : p.value with
    | nil =>
      rw [hvalue, List.nil_append] at h
      obtain ⟨before, gap, after, rfl, hbefore, hgap, hafter, hlast, hhead⟩ := ih hps h
      -- A piece that stands for nothing is between the cuts unless something comes behind it.
      cases before with
      | nil =>
        refine ⟨[], p :: gap, after, rfl, hbefore, ?_, hafter, nofun, hhead⟩
        rw [values_cons, hvalue, hgap]
        rfl
      | cons q before =>
        refine ⟨p :: q :: before, gap, after, rfl, ?_, hgap, hafter, ?_, hhead⟩
        · rw [values_cons, hvalue, hbefore]
          rfl
        · simpa [List.getLast?_cons_cons] using hlast
    | cons c cs =>
      obtain rfl : cs = [] := by
        rw [hvalue] at hp
        simpa using hp
      have hne : p.value ≠ [] := by simp [hvalue]
      rw [hvalue] at h
      cases a with
      | nil =>
        refine ⟨[], [], p :: ps, rfl, rfl, rfl, ?_, nofun, by simpa using hne⟩
        rw [values_cons, hvalue]
        exact h
      | cons d a =>
        -- The piece stands for the first character of what goes before the cut.
        obtain ⟨rfl, hvalues⟩ := List.cons.inj h
        obtain ⟨before, gap, after, rfl, hbefore, hgap, hafter, hlast, hhead⟩ := ih hps hvalues
        refine ⟨p :: before, gap, after, rfl, ?_, hgap, hafter, ?_, hhead⟩
        · rw [values_cons, hvalue, hbefore]
          rfl
        · cases before with
          | nil => simpa using hne
          | cons q before => simpa [List.getLast?_cons_cons] using hlast

end Piece

namespace Literal

open Piece (values sources)

/-- Whether `shown` are the bytes in which a literal that begins at byte `start` of a document has
    the bytes `place` of its value: from the first piece to the last one of those that stand for
    them, or right before the closing delimiter for the end of the value. -/
def Shows (l : Literal) (start : Nat) (place shown : Span) : Prop :=
  ∃ before middle after, l.pieces = before ++ (middle ++ after) ∧
    place = ⟨byteSize (values before), byteSize (values (before ++ middle))⟩ ∧
    shown = ⟨start + byteSize (l.opening ++ sources before),
      start + byteSize (l.opening ++ sources (before ++ middle))⟩ ∧
    (∀ p ∈ middle.head?, p.value ≠ []) ∧ (∀ p ∈ middle.getLast?, p.value ≠ []) ∧
    (middle = [] → after = [])

/-- Whether everything in a literal that stands for the first `n` bytes of its value is written as
    itself. -/
def PlainUpTo (l : Literal) (n : Nat) : Prop :=
  ∀ before p after, l.pieces = before ++ p :: after → byteSize (values before) < n →
    p.source = p.value

variable {l : Literal} {start : Nat} {place shown : Span}

/-- What is written of a literal is its opening, its pieces and the closing delimiter. -/
theorem byteSize_source (l : Literal) :
    byteSize l.source =
      byteSize l.opening + byteSize (sources l.pieces) + byteSize l.style.delimiter := by
  rw [source, byteSize_append, byteSize_append]

/-- Every part of the value is written somewhere. -/
theorem exists_shows (l : Literal) (start : Nat) {a cs b : List Char} (h : l.value = a ++ (cs ++ b))
    (hend : cs = [] → b = []) :
    ∃ shown, l.Shows start ⟨byteSize a, byteSize (a ++ cs)⟩ shown := by
  have hsmall : ∀ p ∈ l.pieces, p.value.length ≤ 1 := fun p hp => (l.fits p hp).length_value_le
  -- Cut before the part and behind it; what stands for nothing in between belongs to neither side.
  obtain ⟨before, gap, rest, hpieces, rfl, hgap, hrest, -, hhead⟩ := Piece.exists_cut hsmall h
  have hsmall' : ∀ p ∈ rest, p.value.length ≤ 1 := fun p hp => hsmall p (by simp [hpieces, hp])
  obtain ⟨middle, gap', after, rfl, rfl, hgap', rfl, hlast, hhead'⟩ :=
    Piece.exists_cut hsmall' hrest
  refine ⟨_, before ++ gap, middle, gap' ++ after, by simp [hpieces], ?_, rfl, ?_, hlast, ?_⟩
  · simp [hgap]
  · intro p hp
    apply hhead p
    cases middle with
    | nil => cases hp
    | cons q middle => exact hp
  · rintro rfl
    -- At the end of the value no piece is left that could stand for anything.
    have hvalues : values (gap' ++ after) = [] := by simp [hgap', hend rfl]
    cases hall : gap' ++ after with
    | nil => rfl
    | cons q qs =>
      have hq : q.value = [] := Piece.values_eq_nil hvalues q (by simp [hall])
      exact absurd hq (hhead q (by simp [hall]))

/-- What is shown lies between the opening of the literal and the closing delimiter. -/
theorem Shows.inside (h : l.Shows start place shown) :
    start + byteSize l.opening ≤ shown.start ∧ shown.start ≤ shown.stop ∧
      shown.stop + byteSize l.style.delimiter ≤ start + byteSize l.source := by
  obtain ⟨before, middle, after, hpieces, rfl, rfl, -⟩ := h
  -- The pieces before, inside and behind the part add up to all that is between the delimiters.
  simp only [byteSize_source, hpieces, Piece.sources_append, byteSize_append]
  omega

/-- The end of the value is shown right before the closing delimiter. -/
theorem Shows.at_end (h : l.Shows start place shown) (hempty : place.start = place.stop) :
    shown.stop + byteSize l.style.delimiter = start + byteSize l.source := by
  obtain ⟨before, middle, after, hpieces, rfl, rfl, hhead, -, hend⟩ := h
  cases middle with
  | nil =>
    obtain rfl := hend rfl
    simp only [byteSize_source, hpieces, List.append_nil, byteSize_append]
    omega
  | cons p middle =>
    -- A part that has a piece has a byte, and so is not empty.
    have hp := byteSize_pos (hhead p rfl)
    simp only [Piece.values_append, Piece.values_cons, byteSize_append] at hempty
    omega

/-- A literal has at least one quote in front of its value. -/
theorem byteSize_opening_pos (l : Literal) : 0 < byteSize l.opening := by
  rw [opening, byteSize_append]
  exact Nat.add_pos_left l.style.byteSize_delimiter_pos _

/-- Only a text on one line has nothing but a quote before its value. -/
theorem block_of_byteSize_opening (h : byteSize l.opening ≤ 1) : l.style.block = false := by
  rw [opening, byteSize_append, Style.byteSize_delimiter] at h
  cases hblock : l.style.block with
  | false => rfl
  | true =>
    rw [hblock, if_pos rfl] at h
    omega

/-- On one line the opening is a single quote, as only a text on several lines has its first line
    break trimmed. -/
theorem byteSize_opening (h : l.style.block = false) : byteSize l.opening = 1 := by
  have htrimmed : l.trimmed = [] := by
    rcases l.trimmed_fits with htrimmed | ⟨hblock, -⟩
    · exact htrimmed
    · rw [h] at hblock
      cases hblock
  rw [opening, htrimmed, List.append_nil, Style.byteSize_delimiter, h]
  rfl

/-- The pieces up to the end of a part are pieces of the literal. -/
theorem fits_of_pieces {before middle after : List Piece}
    (h : l.pieces = before ++ (middle ++ after)) : ∀ p ∈ before ++ middle, p.Fits l.style := by
  intro p hp
  apply l.fits p
  rw [h, ← List.append_assoc]
  exact List.mem_append_left after hp

/-- The value is never written before where the shift by one quote looks for it. -/
theorem Shows.shift_le (h : l.Shows start place shown) :
    (place.shift (start + 1)).start ≤ shown.start ∧
      (place.shift (start + 1)).stop ≤ shown.stop := by
  obtain ⟨before, middle, after, hpieces, rfl, rfl, -⟩ := h
  have hopening := l.byteSize_opening_pos
  have hfits := fits_of_pieces hpieces
  -- No piece is written shorter than what it stands for, and the opening has one byte at least.
  have hbefore := Piece.byteSize_values_le fun p hp => hfits p (List.mem_append_left middle hp)
  have hboth := Piece.byteSize_values_le hfits
  simp only [Span.shift, byteSize_append]
  omega

/-- The shift by one quote finds what it looks for exactly if the text stands on one line and is
    written as its value up to there. -/
theorem shows_shift_iff (hshown : l.Shows start place shown) :
    l.Shows start place (place.shift (start + 1)) ↔
      l.style.block = false ∧ l.PlainUpTo place.stop := by
  constructor
  · rintro ⟨before, middle, after, hpieces, rfl, hshift, -⟩
    have hstop := congrArg Span.stop hshift
    have hopening := l.byteSize_opening_pos
    have hfits := fits_of_pieces hpieces
    have hsize := Piece.byteSize_values_le hfits
    simp only [Span.shift, byteSize_append] at hstop
    -- The shift adds one byte, so that neither the opening nor a piece up to there may add more.
    have hplain := Piece.source_eq_of_byteSize_le hfits (by omega)
    refine ⟨block_of_byteSize_opening (by omega), fun front p back hcut hfront => ?_⟩
    -- A piece that begins before the end of the range is one of those up to there.
    dsimp only at hfront
    rw [hpieces, ← List.append_assoc] at hcut
    rcases List.append_eq_append_iff.mp hcut with ⟨z, hz, -⟩ | ⟨z, hz, hback⟩
    · rw [hz, Piece.values_append, byteSize_append] at hfront
      omega
    · cases z with
      | nil =>
        rw [hz, List.append_nil] at hfront
        exact absurd hfront (Nat.lt_irrefl _)
      | cons q z =>
        obtain rfl := (List.cons.inj hback).1
        exact hplain p (by rw [hz]; simp)
  · -- Nothing but the one quote comes between value and source.
    rintro ⟨hline, hplain⟩
    suffices h : place.shift (start + 1) = shown by rwa [h]
    obtain ⟨before, middle, after, hpieces, rfl, rfl, -⟩ := hshown
    have hall : ∀ p ∈ before ++ middle, p.source = p.value := by
      -- On one line no piece is empty, so that each of them begins before the end of the range.
      intro p hp
      obtain ⟨front, back, hcut⟩ := List.mem_iff_append.mp hp
      have hpieces' : l.pieces = front ++ p :: (back ++ after) := by
        rw [hpieces, ← List.append_assoc, hcut]
        simp
      have hne := byteSize_pos ((l.fits p (by simp [hpieces'])).value_ne_nil hline)
      refine hplain front p _ hpieces' ?_
      dsimp only
      rw [hcut, Piece.values_append, Piece.values_cons, byteSize_append, byteSize_append]
      omega
    have hboth := Piece.sources_eq_values hall
    have hbefore := Piece.sources_eq_values fun p hp => hall p (List.mem_append_left middle hp)
    simp only [Span.shift, byteSize_append, hboth, hbefore, byteSize_opening hline, Span.mk.injEq]
    omega

/-- A literal of which nothing but two quotes is not its value is written as its value. -/
theorem plain_of_byteSize_source (h : byteSize l.source ≤ byteSize l.value + 2) (n : Nat) :
    l.style.block = false ∧ l.PlainUpTo n := by
  have hvalues := Piece.byteSize_values_le l.fits
  have hopening := l.byteSize_opening_pos
  have hdelimiter := l.style.byteSize_delimiter_pos
  rw [byteSize_source, value] at h
  refine ⟨block_of_byteSize_opening (by omega), fun before p after hpieces _ => ?_⟩
  exact Piece.source_eq_of_byteSize_le l.fits (by omega) p (by simp [hpieces])

end Literal

end Toml

/-! ## The fault in a value -/

/-- What is at fault in a text is a part of it, which is empty at the end only. -/
theorem Ty.exists_cut_of_parse {s : String} {e : SyntaxError} (h : Ty.parse s = .error e) :
    ∃ a cs b, s.toList = a ++ (cs ++ b) ∧ e.span = ⟨byteSize a, byteSize (a ++ cs)⟩ ∧
      (cs = [] → b = []) := by
  unfold Ty.parse Ty.parseChars at h
  cases hscan : Token.scan s.toList with
  | error e' =>
    rw [hscan] at h
    obtain rfl := Except.error.inj h
    -- A stray character is itself at fault.
    obtain ⟨before, c, after, htext, -, -, rfl⟩ := Token.exists_stray_of_scanFrom hscan
    exact ⟨before, [c], after, htext, by simp [Token.strayCharacter], nofun⟩
  | ok tokens =>
    rw [hscan] at h
    rcases Progress.read_eq_error h with ⟨-, -, -, hspan⟩ |
      ⟨before, tok, after, -, rfl, -, -, hspan⟩
    · exact ⟨s.toList, [], [], by simp, by simp [hspan], fun _ => rfl⟩
    · -- A token that no type goes on with is at fault as a whole; its lexeme is not empty.
      have hpartition : Token.IsPartition 0 s.toList (before ++ tok :: after) :=
        Token.scanFrom_eq_ok_iff.mp hscan
      obtain ⟨a, cs, b, htext, hplace, hlexeme⟩ := hpartition.lexemes tok (by simp)
      exact ⟨a, cs, b, htext, by simp [hspan, hplace], fun hcs => absurd hcs hlexeme.ne_nil⟩

/-! ## The texts of substitutions -/

namespace Manifest

open Toml (Node Entries AtLiteral)

variable {doc : List Char}

/-- The text of a placed node is that of a literal in the document. -/
theorem atLiteral_of_textOf {v : Node} {text : Located String} (h : textOf v = .ok text)
    (hv : v.Placed doc) : AtLiteral doc text.value text.span := by
  cases v with
  | text s span =>
    obtain rfl := Except.ok.inj h
    exact hv s span .text
  | _ => cases h

/-- The items of a placed node are placed, whether they are those of an array or repeated tables. -/
theorem placed_of_itemsOf {v : Node} {items : List Node} (h : itemsOf v = .ok items)
    (hv : v.Placed doc) : ∀ w ∈ items, w.Placed doc := by
  cases v with
  | array items' =>
    obtain rfl := Except.ok.inj h
    exact Node.placed_array.mp hv
  | tables earlier last =>
    obtain rfl := Except.ok.inj h
    obtain ⟨hearlier, hlast⟩ := Node.placed_tables.mp hv
    intro w hw
    obtain ⟨es, hes, rfl⟩ := List.mem_map.mp hw
    -- Repeated tables are kept as those closed already and the last one.
    rcases List.mem_append.mp hes with hes | hes
    · exact Node.placed_table.mpr (hearlier es hes)
    · obtain rfl := List.mem_singleton.mp hes
      exact Node.placed_table.mpr hlast
  | _ => cases h

/-- Whether the sides of a substitution that have been read are texts of literals. -/
def PairDraft.Placed (doc : List Char) (d : PairDraft) : Prop :=
  ∀ text, d.source = some text ∨ d.target = some text → AtLiteral doc text.value text.span

/-- One more entry of a substitution keeps the sides that have been read the texts of literals. -/
theorem PairDraft.placed_visit {d d' : PairDraft} {entry : String × Node}
    (h : d.visit entry = .ok d') (hd : d.Placed doc) (hentry : entry.2.Placed doc) :
    d'.Placed doc := by
  unfold PairDraft.visit at h
  -- The entry is the source, the target, or one that is not known.
  split at h
  · obtain ⟨side, hside, h⟩ := Build.except_bind_eq_ok.mp h
    obtain rfl := Except.ok.inj h
    rintro text (htext | htext)
    · obtain rfl := Option.some.inj htext
      exact atLiteral_of_textOf hside hentry
    · exact hd text (.inr htext)
  · obtain ⟨side, hside, h⟩ := Build.except_bind_eq_ok.mp h
    obtain rfl := Except.ok.inj h
    rintro text (htext | htext)
    · exact hd text (.inl htext)
    · obtain rfl := Option.some.inj htext
      exact atLiteral_of_textOf hside hentry
  · cases h

/-- What is required is there, if there is no error. -/
theorem eq_some_of_require {α : Type} {name : String} {o : Option α} {a : α}
    (h : Json.require name o = .ok a) : o = some a := by
  cases o with
  | none => cases h
  | some b => exact congrArg some (Except.ok.inj h)

/-- Both sides of a substitution are texts of literals. -/
theorem placed_of_pairOf {v : Node} {pair : RawPair} (h : pairOf v = .ok pair)
    (hv : v.Placed doc) : ∀ text ∈ pair.texts, AtLiteral doc text.value text.span := by
  have both {source target : Located String} (hsource : AtLiteral doc source.value source.span)
      (htarget : AtLiteral doc target.value target.span) :
      ∀ text ∈ (RawPair.mk source target).texts, AtLiteral doc text.value text.span := by
    simp [RawPair.texts, hsource, htarget]
  -- A substitution is a table of its sides, or an array of two texts.
  unfold pairOf at h
  split at h
  · obtain ⟨d, hd, h⟩ := Build.except_bind_eq_ok.mp h
    obtain ⟨source, hsource, h⟩ := Build.except_bind_eq_ok.mp h
    obtain ⟨target, htarget, h⟩ := Build.except_bind_eq_ok.mp h
    obtain rfl := Except.ok.inj h
    have hentries := Node.placed_table.mp hv
    have hplaced : d.Placed doc := except_foldlM_induction
      (fun _ entry _ hs hentry hvisit => PairDraft.placed_visit hvisit hs (hentries _ _ hentry))
      (fun _ hnone => by simp at hnone) hd
    exact both (hplaced source (.inl (eq_some_of_require hsource)))
      (hplaced target (.inr (eq_some_of_require htarget)))
  · obtain ⟨source, hsource, h⟩ := Build.except_bind_eq_ok.mp h
    obtain ⟨target, htarget, h⟩ := Build.except_bind_eq_ok.mp h
    obtain rfl := Except.ok.inj h
    have hitems := Node.placed_array.mp hv
    exact both (atLiteral_of_textOf hsource (hitems _ (by simp)))
      (atLiteral_of_textOf htarget (hitems _ (by simp)))
  · obtain ⟨source, hsource, h⟩ := Build.except_bind_eq_ok.mp h
    cases h
  · cases h
  · cases h

/-- The texts of substitutions are those of literals in the manifest. -/
theorem placed_ofEntries {entries : Entries} {raw : Raw} (h : Raw.ofEntries entries = .ok raw)
    (hentries : entries.Placed doc) :
    ∀ text ∈ raw.texts, AtLiteral doc text.value text.span := by
  -- Entries are read one by one; only those of substitutions add texts.
  refine except_foldlM_induction
    (I := fun r => ∀ text ∈ r.texts, AtLiteral doc text.value text.span)
    (fun r entry r' hr hentry hvisit => ?_) nofun h
  obtain ⟨v, mode, rfl, -, rfl⟩ | ⟨v, items, classes, rfl, -, -, rfl⟩ |
    ⟨v, items, pairs, rfl, hitems, hpairs, rfl⟩ := visit_cases hvisit
  · exact hr
  · exact hr
  · have hplaced := hentries _ v hentry
    intro text htext
    obtain ⟨pair, hpair, htext⟩ := List.mem_flatMap.mp htext
    obtain ⟨item, hitem, hpair⟩ := (except_mapM_eq_ok.mp hpairs).exists_of_mem_right hpair
    exact placed_of_pairOf hpair (placed_of_itemsOf hitems hplaced item hitem) text htext

/-! ## Reported places -/

/-- Whether an error reports the fault in a text of a substitution, which is the value of a literal
    that begins at byte `start` of the manifest. -/
structure Reports (text : String) (e : SyntaxError) (l : Toml.Literal) (start : Nat)
    (fault : SyntaxError) : Prop where
  side : ∃ entries raw, Toml.parse? text = some entries ∧ Raw.ofEntries entries = .ok raw ∧
    ⟨String.ofList l.value, ⟨start, start + byteSize l.source⟩⟩ ∈ raw.texts
  written : ∃ before after, text.toList = before ++ l.source ++ after ∧ byteSize before = start
  parse : Ty.parse (String.ofList l.value) = .error fault
  cause : e.cause = fault.cause

/-- The error of a manifest is that of its first text at fault, moved behind the first quote of the
    literal. -/
theorem exists_reports {text : String} {e : SyntaxError} (h : parse text = .error (.typeSyntax e)) :
    ∃ l start fault, Reports text e l start fault ∧ e.span = fault.span.shift (start + 1) := by
  unfold parse at h
  cases htext : Toml.parse? text with
  | none =>
    rw [htext] at h
    cases h
  | some entries =>
    cases hraw : Raw.ofEntries entries with
    | error err =>
      rw [htext] at h
      simp only [hraw] at h
      cases h
    | ok raw =>
      rw [htext] at h
      simp only [hraw] at h
      -- The first failing text is one of those read, and so a literal in the source.
      obtain ⟨⟨value, span⟩, before, after, htexts, -, hfault⟩ := Raw.resolve_eq_error h
      have hmem : Located.mk value span ∈ raw.texts := by simp [htexts]
      obtain ⟨l, front, back, hdoc, rfl, rfl⟩ :=
        placed_ofEntries hraw (Toml.placed_of_parse? htext) _ hmem
      rcases declaredType_eq_error.mp hfault with ⟨fault, hparse, he⟩ | ⟨t, -, -, he⟩
      · obtain rfl := Error.typeSyntax.inj he
        rw [byteSize_append] at hmem
        exact ⟨l, byteSize front, fault, ⟨⟨entries, raw, htext, hraw, hmem⟩,
          ⟨front, back, hdoc, rfl⟩, hparse, rfl⟩, rfl⟩
      · cases he

/-- A fault in the type of a substitution is reported in the literal that has the text, and never
    behind the place where the fault is written. It is reported at that place exactly if the text
    stands on one line and is written as its value up to the end of the fault. -/
theorem typeSyntax_place {text : String} {e : SyntaxError}
    (h : parse text = .error (.typeSyntax e)) :
    ∃ l start fault, Reports text e l start fault ∧
      start < e.span.start ∧ e.span.start ≤ e.span.stop ∧
      e.span.stop < start + byteSize l.source ∧
      (∃ shown, l.Shows start fault.span shown ∧
        e.span.start ≤ shown.start ∧ e.span.stop ≤ shown.stop) ∧
      (l.Shows start fault.span e.span ↔
        l.style.block = false ∧ l.PlainUpTo fault.span.stop) := by
  obtain ⟨l, start, fault, hreports, hspan⟩ := exists_reports h
  -- The fault is a part of the value, which is shown somewhere in the literal.
  obtain ⟨a, cs, b, hvalue, hplace, hend⟩ := Ty.exists_cut_of_parse hreports.parse
  rw [String.toList_ofList] at hvalue
  obtain ⟨shown, hshown⟩ := l.exists_shows start hvalue hend
  rw [← hplace] at hshown
  obtain ⟨-, -, hstop⟩ := hshown.inside
  have hdelimiter := l.style.byteSize_delimiter_pos
  have hshift := hshown.shift_le
  have hordered : fault.span.start ≤ fault.span.stop := by
    rw [hplace, byteSize_append]
    exact Nat.le_add_right _ _
  rw [hspan]
  refine ⟨l, start, fault, hreports, ?_, ?_, ?_, ⟨shown, hshown, hshift⟩,
    Toml.Literal.shows_shift_iff hshown⟩
  · simp only [Span.shift]
    omega
  · simp only [Span.shift]
    omega
  · omega

end Manifest

namespace Sample

open Manifest (Raw Reports)

/-- A manifest with a type that is not closed. -/
def unclosed : String := "[[substitute]]\nfrom = \"Query<\"\nto = \"string\"\n"

/-- The same manifest with the text written as one that may take several lines. -/
def delimited : String := "[[substitute]]\nfrom = \"\"\"Query<\"\"\"\nto = \"string\"\n"

/-- The same manifest with an escape in the text. -/
def escaped : String := "[[substitute]]\nfrom = \"\\u0051uery<\"\nto = \"string\"\n"

/-- The fault in the value that the text has in all of them. -/
def unclosedFault : SyntaxError := ⟨.expected .ident none, ⟨6, 6⟩⟩

/-- Whether a decoded manifest has the unclosed text at some bytes, and fails at byte `reported`. -/
def Unclosed (side other : Span) (reported : Nat) (raw : Raw) : Prop :=
  raw.texts = [⟨"Query<", side⟩, ⟨"string", other⟩] ∧
    failureOf raw = some (.typeSyntax ⟨.expected .ident none, ⟨reported, reported⟩⟩)

instance (side other : Span) (reported : Nat) : DecidablePred (Unclosed side other reported) :=
  fun _ => inferInstanceAs (Decidable (_ ∧ _))

/-- Only the unclosed text can be at fault. -/
theorem Unclosed.reports {t : String} {side other : Span} {reported : Nat}
    (h : ∃ entries raw, Toml.parse? t = some entries ∧ Raw.ofEntries entries = .ok raw ∧
      Unclosed side other reported raw) :
    Manifest.parse t = .error (.typeSyntax ⟨.expected .ident none, ⟨reported, reported⟩⟩) ∧
      ∀ {e l start fault}, Reports t e l start fault → fault = unclosedFault ∧
        l.value = "Query<".toList ∧ start = side.start ∧ start + byteSize l.source = side.stop := by
  obtain ⟨entries, raw, htext, hraw, htexts, hfailure⟩ := h
  refine ⟨parse_of_failureOf htext hraw hfailure, fun {e l start fault} hreports => ?_⟩
  obtain ⟨⟨entries', raw', htext', hraw', hside⟩, -, hparse, -⟩ := hreports
  obtain rfl := Option.some.inj (htext.symm.trans htext')
  obtain rfl := Except.ok.inj (hraw.symm.trans hraw')
  rw [htexts] at hside
  rcases List.mem_cons.mp hside with hside | hside
  · obtain ⟨hvalue, hspan⟩ := Located.mk.inj hside
    have hfault : Ty.parse "Query<" = .error unclosedFault := by rfl
    rw [hvalue] at hparse
    refine ⟨Except.error.inj (hparse.symm.trans hfault), ?_, ?_⟩
    · rw [← hvalue, String.toList_ofList]
    · simp [← hspan]
  · obtain ⟨hvalue, -⟩ := Located.mk.inj (List.mem_singleton.mp hside)
    have hstring : Ty.parse "string" = .ok (.named "string") := by rfl
    rw [hvalue, hstring] at hparse
    cases hparse

/-- Behind a single quote and without escapes the place is right. -/
theorem unclosed_shown :
    Manifest.parse unclosed = .error (.typeSyntax ⟨.expected .ident none, ⟨29, 29⟩⟩) ∧
      ∃ l, Reports unclosed ⟨.expected .ident none, ⟨29, 29⟩⟩ l 22 unclosedFault ∧
        l.Shows 22 ⟨6, 6⟩ ⟨29, 29⟩ := by
  have hunclosed := exists_raw (t := unclosed) (P := Unclosed ⟨22, 30⟩ ⟨36, 44⟩ 29)
    (by decide +kernel)
  obtain ⟨hparse, hreports⟩ := Unclosed.reports hunclosed
  refine ⟨hparse, ?_⟩
  obtain ⟨l, start, fault, hreported, -, -, -, -, hiff⟩ := Manifest.typeSyntax_place hparse
  obtain ⟨rfl, hvalue, rfl, hsource⟩ := hreports hreported
  refine ⟨l, hreported, hiff.mpr (Toml.Literal.plain_of_byteSize_source ?_ _)⟩
  have hsize : byteSize "Query<".toList = 6 := by rfl
  rw [hvalue, hsize]
  dsimp only at hsource
  omega

/-- The place is wrong if neither one quote nor three are left between it and the end of the
    literal. -/
theorem Unclosed.not_shows {t : String} {side other : Span} {reported : Nat}
    (h : ∃ entries raw, Toml.parse? t = some entries ∧ Raw.ofEntries entries = .ok raw ∧
      Unclosed side other reported raw)
    (hquote : reported + 1 ≠ side.stop) (hquotes : reported + 3 ≠ side.stop) :
    Manifest.parse t = .error (.typeSyntax ⟨.expected .ident none, ⟨reported, reported⟩⟩) ∧
      ¬ ∃ l start fault, Reports t ⟨.expected .ident none, ⟨reported, reported⟩⟩ l start fault ∧
        l.Shows start fault.span ⟨reported, reported⟩ := by
  obtain ⟨hparse, hreports⟩ := Unclosed.reports h
  refine ⟨hparse, ?_⟩
  rintro ⟨l, start, fault, hreported, hshows⟩
  obtain ⟨rfl, -, -, hsource⟩ := hreports hreported
  have hend := hshows.at_end rfl
  rw [hsource, Toml.Style.byteSize_delimiter] at hend
  split at hend
  · exact hquotes hend
  · exact hquote hend

/-- Behind three quotes, or behind an escape, the place is wrong. -/
theorem unclosed_misplaced :
    (Manifest.parse delimited = .error (.typeSyntax ⟨.expected .ident none, ⟨29, 29⟩⟩) ∧
      ¬ ∃ l start fault, Reports delimited ⟨.expected .ident none, ⟨29, 29⟩⟩ l start fault ∧
        l.Shows start fault.span ⟨29, 29⟩) ∧
    Manifest.parse escaped = .error (.typeSyntax ⟨.expected .ident none, ⟨29, 29⟩⟩) ∧
      ¬ ∃ l start fault, Reports escaped ⟨.expected .ident none, ⟨29, 29⟩⟩ l start fault ∧
        l.Shows start fault.span ⟨29, 29⟩ := by
  have hdelimited := exists_raw (t := delimited) (P := Unclosed ⟨22, 34⟩ ⟨40, 48⟩ 29)
    (by decide +kernel)
  have hescaped := exists_raw (t := escaped) (P := Unclosed ⟨22, 35⟩ ⟨41, 49⟩ 29)
    (by decide +kernel)
  exact ⟨Unclosed.not_shows hdelimited (by decide) (by decide),
    Unclosed.not_shows hescaped (by decide) (by decide)⟩

end Sample

end Retarget
