import Retarget.Toml.Parser
import Retarget.Proofs.Reading

/-!
# How texts are written in TOML

Between its delimiters a text is written in pieces: most characters stand for themselves, an escape
stands for one character, and over several lines every line end stands for a line feed, unless it
follows the opening delimiter or is escaped itself, when it stands for nothing. Whatever the reader
accepts as a text is written so.

## Key results

- `Toml.Literal`: a text as it is written, which determines its value
- `Toml.Piece.Fits.byteSize_le`: no piece takes less than what it stands for
- `Toml.text_reads`: the reader of texts reads literals
-/

namespace Retarget.Toml

open Cursor (Reads)
open Scanner

/-! ## Literals -/

/-- How a text is written: with escapes or without them, on one line or over several. -/
structure Style where
  escapes : Bool
  block : Bool

def Style.quote (style : Style) : Char := if style.escapes then '"' else '\''

def Style.delimiter (style : Style) : List Char :=
  List.replicate (if style.block then 3 else 1) style.quote

/-- The characters that end a line. -/
inductive LineEnd : List Char → Prop where
  | feed : LineEnd ['\n']
  | returnFeed : LineEnd ['\r', '\n']

/-- Blanks and line ends. -/
inductive Lines : List Char → Prop where
  | nil : Lines []
  | blank {c : Char} {cs : List Char} (h : isBlank c = true) (hcs : Lines cs) : Lines (c :: cs)
  | newline {line cs : List Char} (h : LineEnd line) (hcs : Lines cs) : Lines (line ++ cs)

/-- The characters that are escaped by a letter or a mark. -/
def shortEscapes : List (Char × Char) :=
  [('b', Char.ofNat 8), ('t', '\t'), ('n', '\n'), ('f', Char.ofNat 12), ('r', '\r'), ('"', '"'),
    ('\\', '\\')]

/-- What may follow a backslash, and the character that it then stands for. -/
inductive Escape : List Char → Char → Prop where
  | short {c d : Char} (h : (c, d) ∈ shortEscapes) : Escape [c] d
  | codePoint {c : Char} {digits : List Char} {values : List Nat}
      (hlength : (c, digits.length) ∈ [('u', 4), ('U', 8)])
      (hvalues : digits.mapM Json.hexDigit? = some values)
      (hvalid : (values.foldl (16 * · + ·) 0).isValidChar) :
      Escape (c :: digits) (Char.ofNat (values.foldl (16 * · + ·) 0))

/-- A part of what is written between the delimiters, and the characters that it stands for. -/
structure Piece where
  source : List Char
  value : List Char

namespace Piece

/-- Whether a piece can be part of a text of some style. -/
inductive Fits (style : Style) : Piece → Prop where
  | plain {c : Char} (htext : isTextChar c = true) (hquote : style.block = true ∨ c ≠ style.quote)
      (hescape : style.escapes = true → c ≠ '\\') : Fits style ⟨[c], [c]⟩
  | escape {cs : List Char} {c : Char} (hescapes : style.escapes = true) (h : Escape cs c) :
      Fits style ⟨'\\' :: cs, [c]⟩
  | newline {line : List Char} (hblock : style.block = true) (h : LineEnd line) :
      Fits style ⟨line, ['\n']⟩
  | join {blanks line rest : List Char} (hescapes : style.escapes = true)
      (hblock : style.block = true) (hblanks : ∀ c ∈ blanks, isBlank c = true)
      (hline : LineEnd line) (hrest : Lines rest) :
      Fits style ⟨'\\' :: (blanks ++ line ++ rest), []⟩

/-- What is written in several pieces. -/
def sources (ps : List Piece) : List Char := ps.flatMap source

/-- What several pieces stand for. -/
def values (ps : List Piece) : List Char := ps.flatMap value

@[simp] theorem sources_nil : sources [] = [] := rfl

@[simp] theorem values_nil : values [] = [] := rfl

/-- Pieces are written one after the other. -/
@[simp] theorem sources_cons (p : Piece) (ps : List Piece) :
    sources (p :: ps) = p.source ++ sources ps :=
  List.flatMap_cons ..

/-- Pieces stand for what they stand for one after the other. -/
@[simp] theorem values_cons (p : Piece) (ps : List Piece) :
    values (p :: ps) = p.value ++ values ps :=
  List.flatMap_cons ..

/-- What is written for two runs of pieces, one after the other. -/
@[simp] theorem sources_append (ps qs : List Piece) :
    sources (ps ++ qs) = sources ps ++ sources qs :=
  List.flatMap_append

/-- What two runs of pieces stand for, one after the other. -/
@[simp] theorem values_append (ps qs : List Piece) :
    values (ps ++ qs) = values ps ++ values qs :=
  List.flatMap_append

end Piece

/-- A text as it is written. -/
structure Literal where
  style : Style
  /-- The line end after the opening delimiter, which does not count. -/
  trimmed : List Char
  pieces : List Piece
  trimmed_fits : trimmed = [] ∨ (style.block = true ∧ LineEnd trimmed)
  fits : ∀ p ∈ pieces, p.Fits style

namespace Literal

/-- What is written before the pieces. -/
def opening (l : Literal) : List Char := l.style.delimiter ++ l.trimmed

def source (l : Literal) : List Char :=
  l.opening ++ Piece.sources l.pieces ++ l.style.delimiter

def value (l : Literal) : List Char := Piece.values l.pieces

end Literal

/-! ## Sizes -/

/-- A delimiter takes three bytes over several lines and one on a single line. -/
theorem Style.byteSize_delimiter (style : Style) :
    byteSize style.delimiter = if style.block then 3 else 1 := by
  obtain ⟨escapes, block⟩ := style
  cases escapes <;> cases block <;> rfl

/-- A delimiter takes some bytes, so a literal is never empty. -/
theorem Style.byteSize_delimiter_pos (style : Style) : 0 < byteSize style.delimiter := by
  rw [byteSize_delimiter]
  split <;> decide

/-- Every character takes a byte at least. -/
theorem length_le_byteSize (cs : List Char) : cs.length ≤ byteSize cs := by
  induction cs with
  | nil => exact Nat.le_refl 0
  | cons c cs ih =>
    have := c.utf8Size_pos
    simp only [List.length_cons, byteSize_cons]
    omega

/-- What follows the backslash alone takes no less than the character that it stands for. -/
theorem Escape.utf8Size_le {cs : List Char} {c : Char} (h : Escape cs c) :
    c.utf8Size ≤ byteSize cs := by
  cases h with
  | short h =>
    simp only [shortEscapes, List.mem_cons, Prod.mk.injEq, List.not_mem_nil, or_false] at h
    -- Each of the seven characters is ASCII, as is the letter or the mark that stands for it.
    rcases h with ⟨rfl, rfl⟩ | ⟨rfl, rfl⟩ | ⟨rfl, rfl⟩ | ⟨rfl, rfl⟩ | ⟨rfl, rfl⟩ | ⟨rfl, rfl⟩ |
      ⟨rfl, rfl⟩ <;> decide
  | codePoint hlength hvalues hvalid =>
    rename_i d digits values
    -- There are at least four digits, and no character takes more than four bytes.
    have hdigits := length_le_byteSize digits
    have hchar := (Char.ofNat (values.foldl (16 * · + ·) 0)).utf8Size_le_four
    have hfour : 4 ≤ digits.length := by
      simp only [List.mem_cons, Prod.mk.injEq, List.not_mem_nil, or_false] at hlength
      omega
    simp only [byteSize_cons]
    omega

namespace Piece

/-- A piece is written as what it stands for, or takes more than that. -/
theorem Fits.source_eq_or_lt {style : Style} {p : Piece} (h : p.Fits style) :
    p.source = p.value ∨ byteSize p.value < byteSize p.source := by
  cases h with
  -- Only plain characters and single line feeds are written as what they stand for.
  | plain => exact .inl rfl
  | escape _ h =>
    have hle := h.utf8Size_le
    have hbackslash : '\\'.utf8Size = 1 := by decide
    simp only [byteSize_cons, byteSize_nil]
    omega
  | newline _ h =>
    cases h with
    | feed => exact .inl rfl
    | returnFeed => exact .inr (by decide)
  | join =>
    have := '\\'.utf8Size_pos
    simp only [byteSize_cons, byteSize_nil]
    omega

/-- No piece takes less than what it stands for. -/
theorem Fits.byteSize_le {style : Style} {p : Piece} (h : p.Fits style) :
    byteSize p.value ≤ byteSize p.source := by
  rcases h.source_eq_or_lt with heq | hlt
  · exact Nat.le_of_eq (congrArg byteSize heq.symm)
  · exact Nat.le_of_lt hlt

/-- A piece stands for one character at most. -/
theorem Fits.length_value_le {style : Style} {p : Piece} (h : p.Fits style) :
    p.value.length ≤ 1 := by
  cases h <;> simp

/-- On one line every piece stands for a character. -/
theorem Fits.value_ne_nil {style : Style} {p : Piece} (h : p.Fits style)
    (hline : style.block = false) : p.value ≠ [] := by
  cases h with
  | join _ hblock =>
    rw [hline] at hblock
    cases hblock
  | _ => simp

/-- No run of pieces takes less than what it stands for. -/
theorem byteSize_values_le {style : Style} {ps : List Piece} (h : ∀ p ∈ ps, p.Fits style) :
    byteSize (values ps) ≤ byteSize (sources ps) := by
  -- Induction on the pieces, each of which takes no less than its value.
  induction ps with
  | nil => exact Nat.le_refl 0
  | cons p ps ih =>
    have hp := (h p List.mem_cons_self).byteSize_le
    have hps := ih fun q hq => h q (List.mem_cons_of_mem _ hq)
    simp only [values_cons, sources_cons, byteSize_append]
    omega

/-- Pieces take no more than what they stand for only if all are written as that. -/
theorem source_eq_of_byteSize_le {style : Style} {ps : List Piece} (h : ∀ p ∈ ps, p.Fits style)
    (hle : byteSize (sources ps) ≤ byteSize (values ps)) : ∀ p ∈ ps, p.source = p.value := by
  induction ps with
  | nil => simp
  | cons p ps ih =>
    have hps : ∀ q ∈ ps, q.Fits style := fun q hq => h q (List.mem_cons_of_mem _ hq)
    have hp := (h p List.mem_cons_self).byteSize_le
    have hrest := byteSize_values_le hps
    simp only [values_cons, sources_cons, byteSize_append] at hle
    -- The other pieces cannot make up for one that takes more than its value.
    refine List.forall_mem_cons.mpr ⟨?_, ih hps (by omega)⟩
    exact (h p List.mem_cons_self).source_eq_or_lt.resolve_right (by omega)

/-- Pieces that are all written as what they stand for are so as a whole. -/
theorem sources_eq_values {ps : List Piece} (h : ∀ p ∈ ps, p.source = p.value) :
    sources ps = values ps := by
  induction ps with
  | nil => rfl
  | cons p ps ih =>
    rw [sources_cons, values_cons, h p List.mem_cons_self,
      ih fun q hq => h q (List.mem_cons_of_mem _ hq)]

end Piece

/-! ## The parts of texts -/

variable {cur cur' : Cursor}

/-- What the reader takes for the end of a line is one. -/
theorem newline_reads {u : Unit} (h : newline cur = some (u, cur')) :
    ∃ cs, LineEnd cs ∧ Reads cs cur cur' := by
  obtain ⟨b, cur₁, haccept, h⟩ := bind_eq_some.mp h
  -- A carriage return may come before the line feed.
  rcases accept_eq_some haccept with ⟨-, hreturn⟩ | ⟨-, rfl⟩
  · exact ⟨_, .returnFeed, hreturn.trans (char_eq_some.mp h)⟩
  · exact ⟨_, .feed, char_eq_some.mp h⟩

/-- What the reader skips as blanks are blanks. -/
theorem blanks_reads {u : Unit} (h : blanks cur = some (u, cur')) :
    ∃ cs, (∀ c ∈ cs, isBlank c = true) ∧ Reads cs cur cur' := by
  obtain ⟨cs, cur₁, htake, h⟩ := bind_eq_some.mp h
  obtain ⟨-, rfl⟩ := pure_eq_some.mp h
  exact ⟨cs, takeWhile_eq_some htake⟩

/-- Blanks and line ends, and then more of them. -/
theorem Lines.append {cs ds : List Char} (hcs : Lines cs) (hds : Lines ds) : Lines (cs ++ ds) := by
  induction hcs with
  | nil => exact hds
  | blank h _ ih => exact .blank h ih
  | newline h _ ih =>
    rw [List.append_assoc]
    exact .newline h ih

/-- Blanks alone are blanks and line ends. -/
theorem lines_of_blanks {cs : List Char} (h : ∀ c ∈ cs, isBlank c = true) : Lines cs := by
  induction cs with
  | nil => exact .nil
  | cons c cs ih =>
    exact .blank (h c List.mem_cons_self) (ih fun d hd => h d (List.mem_cons_of_mem _ hd))

/-- What the reader skips up to the next character that shows are blanks and line ends. -/
theorem skipLines_reads {u : Unit} (h : skipLines cur = some (u, cur')) :
    ∃ cs, Lines cs ∧ Reads cs cur cur' := by
  obtain ⟨n, cur₁, hremaining, h⟩ := bind_eq_some.mp h
  obtain ⟨-, rfl⟩ := remaining_eq_some.mp hremaining
  -- Invariant of the loop: what has been skipped so far are blanks and line ends.
  refine loop_induction (I := fun _ place => ∃ cs, Lines cs ∧ Reads cs cur place)
    (Q := fun _ place => ∃ cs, Lines cs ∧ Reads cs cur place)
    (fun _ place r place' hplace hstep => ?_) ⟨[], .nil, .refl cur⟩ h
  obtain ⟨cs, hcs, hreads⟩ := hplace
  have further {ds : List Char} (hds : Lines ds) (hreads' : Reads ds place place') :
      ∃ es, Lines es ∧ Reads es cur place' :=
    ⟨cs ++ ds, hcs.append hds, hreads.trans hreads'⟩
  obtain ⟨o, _, hpeek, hstep⟩ := bind_eq_some.mp hstep
  obtain ⟨-, rfl⟩ := peek?_eq_some.mp hpeek
  -- The next character decides: blanks, a line end, or the end of what is skipped.
  split at hstep
  case h_1 | h_2 =>
    obtain ⟨_, _, hblanks, hstep⟩ := bind_eq_some.mp hstep
    obtain ⟨rfl, rfl⟩ := pure_eq_some.mp hstep
    obtain ⟨ds, hds, hreads'⟩ := blanks_reads hblanks
    exact further (lines_of_blanks hds) hreads'
  case h_3 | h_4 =>
    obtain ⟨_, _, hnewline, hstep⟩ := bind_eq_some.mp hstep
    obtain ⟨rfl, rfl⟩ := pure_eq_some.mp hstep
    obtain ⟨ds, hds, hreads'⟩ := newline_reads hnewline
    rw [← ds.append_nil] at hreads'
    exact further (.newline hds .nil) hreads'
  case h_5 =>
    obtain ⟨rfl, rfl⟩ := pure_eq_some.mp hstep
    exact further .nil (.refl place)

/-- A backslash at the end of a line, with all blanks and line ends behind it, is a piece that
    stands for nothing. -/
theorem lineJoin_reads {style : Style} {u : Unit} (hescapes : style.escapes = true)
    (hblock : style.block = true) (h : lineJoin cur = some (u, cur')) :
    ∃ p : Piece, p.Fits style ∧ p.value = [] ∧ Reads p.source cur cur' := by
  obtain ⟨_, cur₁, hbackslash, h⟩ := bind_eq_some.mp h
  obtain ⟨_, cur₂, hblanks, h⟩ := bind_eq_some.mp h
  obtain ⟨_, cur₃, hnewline, h⟩ := bind_eq_some.mp h
  -- The reader comes apart into the four parts of the piece.
  obtain ⟨blanks, hblanks, hreads₂⟩ := blanks_reads hblanks
  obtain ⟨line, hline, hreads₃⟩ := newline_reads hnewline
  obtain ⟨rest, hrest, hreads₄⟩ := skipLines_reads h
  exact ⟨_, .join hescapes hblock hblanks hline hrest, rfl,
    (char_eq_some.mp hbackslash).trans ((hreads₂.trans hreads₃).trans hreads₄)⟩

/-- Hexadecimal digits are read in their number, and their values are added to the digits before
    them. -/
theorem hexDigits_reads {count n m : Nat} (h : Json.hexDigits count n cur = some (m, cur')) :
    ∃ digits values, digits.length = count ∧ digits.mapM Json.hexDigit? = some values ∧
      m = values.foldl (16 * · + ·) n ∧ Reads digits cur cur' := by
  -- Induction on the digits that are left, with any value of those before them.
  induction count generalizing n cur with
  | zero =>
    obtain ⟨rfl, rfl⟩ := pure_eq_some.mp h
    exact ⟨[], [], rfl, rfl, rfl, .refl cur⟩
  | succ count ih =>
    obtain ⟨c, cur₁, hnext, h⟩ := bind_eq_some.mp h
    cases hd : Json.hexDigit? c with
    | none =>
      -- A character that is no digit fails the whole escape.
      rw [hd] at h
      cases h
    | some d =>
      rw [hd] at h
      obtain ⟨digits, values, rfl, hvalues, rfl, hreads⟩ := ih h
      refine ⟨c :: digits, d :: values, rfl, ?_, rfl, (next_eq_some.mp hnext).trans hreads⟩
      rw [List.mapM_cons, hd, hvalues]
      rfl

/-- An escape by code point, once its letter has been read. -/
theorem codePoint_reads {count : Nat} {c d : Char} (hcount : (d, count) ∈ [('u', 4), ('U', 8)])
    (h : codePoint count cur = some (c, cur')) :
    ∃ cs, Escape (d :: cs) c ∧ Reads cs cur cur' := by
  obtain ⟨n, cur₁, hdigits, h⟩ := bind_eq_some.mp h
  obtain ⟨digits, values, rfl, hvalues, rfl, hreads⟩ := hexDigits_reads hdigits
  split at h
  · obtain ⟨rfl, rfl⟩ := pure_eq_some.mp h
    exact ⟨digits, .codePoint hcount hvalues ‹_›, hreads⟩
  · cases h

/-- What is read behind a backslash is an escape, by a letter, a mark or a code point. -/
theorem escaped_reads {c : Char} (h : escaped cur = some (c, cur')) :
    ∃ cs, Escape cs c ∧ Reads cs cur cur' := by
  obtain ⟨d, cur₁, hnext, h⟩ := bind_eq_some.mp h
  have hd := next_eq_some.mp hnext
  -- Escapes by one letter or mark.
  have short {e : Char} (hshort : (d, e) ∈ shortEscapes)
      (hpure : (pure e : Scanner Char) cur₁ = some (c, cur')) :
      ∃ cs, Escape cs c ∧ Reads cs cur cur' := by
    obtain ⟨rfl, rfl⟩ := pure_eq_some.mp hpure
    exact ⟨[d], .short hshort, hd⟩
  -- Escapes by a code point of four or of eight digits.
  have long {count : Nat} (hcount : (d, count) ∈ [('u', 4), ('U', 8)])
      (hcode : codePoint count cur₁ = some (c, cur')) :
      ∃ cs, Escape cs c ∧ Reads cs cur cur' := by
    obtain ⟨cs, hcs, hreads⟩ := codePoint_reads hcount hcode
    exact ⟨d :: cs, hcs, hd.trans hreads⟩
  -- The letter decides which of the two it is.
  split at h
  case h_8 | h_9 => exact long (by decide) h
  case h_10 => cases h
  all_goals exact short (by decide) h

/-! ## Texts -/

/-- What a step of a text reads after some characters: pieces which it adds to them, or the last
    pieces with the delimiter. -/
def StepReads (style : Style) (sofar : List Char) (cur cur' : Cursor) : TextStep → Prop
  | .inl sofar' => ∃ ps : List Piece, (∀ p ∈ ps, p.Fits style) ∧
      Reads (Piece.sources ps) cur cur' ∧ sofar' = (Piece.values ps).reverse ++ sofar
  | .inr s => ∃ ps : List Piece, (∀ p ∈ ps, p.Fits style) ∧
      Reads (Piece.sources ps ++ style.delimiter) cur cur' ∧
      s = String.ofList (sofar.reverse ++ Piece.values ps)

variable {style : Style} {sofar : List Char}

/-- A step that reads one piece adds its value to what was read so far. -/
theorem stepReads_piece {p : Piece} (hp : p.Fits style) (h : Reads p.source cur cur') :
    StepReads style sofar cur cur' (.inl (p.value.reverse ++ sofar)) := by
  refine ⟨[p], by simpa using hp, ?_, by simp⟩
  simpa using h

/-- On one line a step reads the delimiter, an escape, or a character that stands for itself. -/
theorem lineStep_reads {r : TextStep} (hline : style.block = false)
    (h : lineStep style.quote style.escapes sofar cur = some (r, cur')) :
    StepReads style sofar cur cur' r := by
  obtain ⟨c, cur₁, hnext, h⟩ := bind_eq_some.mp h
  have hc := next_eq_some.mp hnext
  by_cases hquote : c = style.quote
  · rw [if_pos hquote] at h
    obtain ⟨rfl, rfl⟩ := pure_eq_some.mp h
    -- The delimiter ends the text, and there are no further pieces.
    refine ⟨[], nofun, ?_, by simp⟩
    rw [Style.delimiter, hline, ← hquote]
    exact hc
  · rw [if_neg hquote] at h
    by_cases hescape : (style.escapes && decide (c = '\\')) = true
    · rw [if_pos hescape] at h
      obtain ⟨hescapes, hbackslash⟩ := Bool.and_eq_true_iff.mp hescape
      obtain rfl := of_decide_eq_true hbackslash
      obtain ⟨d, cur₂, hescaped, h⟩ := bind_eq_some.mp h
      obtain ⟨rfl, rfl⟩ := pure_eq_some.mp h
      obtain ⟨cs, hcs, hreads⟩ := escaped_reads hescaped
      exact stepReads_piece (.escape hescapes hcs) (hc.trans hreads)
    · rw [if_neg hescape] at h
      split at h
      · obtain ⟨rfl, rfl⟩ := pure_eq_some.mp h
        -- What is neither the delimiter nor a backslash stands for itself.
        refine stepReads_piece (.plain ‹_› (.inr hquote) fun hescapes hbackslash => ?_) hc
        exact hescape (by simp [hescapes, hbackslash])
      · cases h

/-- Delimiters in a row stand for themselves. -/
theorem fits_replicate (hblock : style.block = true) (n : Nat) :
    ∀ p ∈ List.replicate n (Piece.mk [style.quote] [style.quote]), p.Fits style := by
  intro p hp
  obtain rfl := List.eq_of_mem_replicate hp
  refine .plain ?_ (.inl hblock) ?_
  all_goals
    rw [Style.quote]
    cases style.escapes <;> decide

/-- Characters in a row that stand for themselves, as they are written. -/
theorem sources_replicate (n : Nat) (c : Char) :
    Piece.sources (List.replicate n ⟨[c], [c]⟩) = List.replicate n c := by
  induction n with
  | zero => rfl
  | succ n ih => rw [List.replicate_succ, Piece.sources_cons, ih]; rfl

/-- Characters in a row that stand for themselves, as what they stand for. -/
theorem values_replicate (n : Nat) (c : Char) :
    Piece.values (List.replicate n ⟨[c], [c]⟩) = List.replicate n c := by
  induction n with
  | zero => rfl
  | succ n ih => rw [List.replicate_succ, Piece.values_cons, ih]; rfl

/-- Over several lines, fewer than three delimiters in a row belong to the text. Of three to five
    the last three end it, and those before them belong to it. -/
theorem delimiterRun_reads {r : TextStep} (hblock : style.block = true)
    (h : delimiterRun style.quote sofar cur = some (r, cur')) :
    StepReads style sofar cur cur' r := by
  obtain ⟨cs, cur₁, htake, h⟩ := bind_eq_some.mp h
  obtain ⟨hall, hreads⟩ := takeWhile_eq_some htake
  -- All characters of the run are quotes, so the run is told by its length.
  have hcs : cs = List.replicate cs.length style.quote :=
    List.eq_replicate_of_mem fun c hc => by simpa using hall c hc
  split at h
  · obtain ⟨rfl, rfl⟩ := pure_eq_some.mp h
    -- Fewer than three: the whole run is text.
    refine ⟨_, fits_replicate hblock cs.length, ?_, ?_⟩
    · rwa [sources_replicate, ← hcs]
    · rw [values_replicate, List.reverse_replicate]
  · split at h
    · obtain ⟨rfl, rfl⟩ := pure_eq_some.mp h
      refine ⟨_, fits_replicate hblock (cs.length - 3), ?_, ?_⟩
      · -- The last three delimiters end the text.
        rw [sources_replicate, Style.delimiter, hblock, if_pos rfl, List.replicate_append_replicate,
          Nat.sub_add_cancel (by omega), ← hcs]
        exact hreads
      · rw [values_replicate, List.reverse_append, List.reverse_replicate]
    · cases h

/-- Over several lines a step reads a run of delimiters, a line end, an escape, a line end that is
    escaped, or a character that stands for itself. -/
theorem blockStep_reads {r : TextStep} (hblock : style.block = true)
    (h : blockStep style.quote style.escapes sofar cur = some (r, cur')) :
    StepReads style sofar cur cur' r := by
  obtain ⟨o, _, hpeek, h⟩ := bind_eq_some.mp h
  obtain ⟨ho, rfl⟩ := peek?_eq_some.mp hpeek
  cases o with
  | none => cases h
  | some c =>
    dsimp only at h
    by_cases hquote : c = style.quote
    · rw [if_pos hquote] at h
      exact delimiterRun_reads hblock h
    rw [if_neg hquote] at h
    split at h
    · obtain ⟨_, cur₁, hnewline, h⟩ := bind_eq_some.mp h
      obtain ⟨rfl, rfl⟩ := pure_eq_some.mp h
      obtain ⟨line, hline, hreads⟩ := newline_reads hnewline
      exact stepReads_piece (.newline hblock hline) hreads
    by_cases hescape : (style.escapes && decide (c = '\\')) = true
    · rw [if_pos hescape] at h
      obtain ⟨hescapes, hbackslash⟩ := Bool.and_eq_true_iff.mp hescape
      -- A backslash is read as an escape only if it does not end its line.
      rcases orElse_eq_some h with h | h
      · obtain ⟨_, cur₁, hjoin, h⟩ := bind_eq_some.mp h
        obtain ⟨rfl, rfl⟩ := pure_eq_some.mp h
        obtain ⟨p, hp, hvalue, hreads⟩ := lineJoin_reads hescapes hblock hjoin
        have hstep : StepReads style sofar cur cur₁ (.inl (p.value.reverse ++ sofar)) :=
          stepReads_piece hp hreads
        rwa [hvalue] at hstep
      · obtain ⟨d, cur₁, hnext, h⟩ := bind_eq_some.mp h
        obtain ⟨e, cur₂, hescaped, h⟩ := bind_eq_some.mp h
        obtain ⟨rfl, rfl⟩ := pure_eq_some.mp h
        obtain ⟨cs, hcs, hreads⟩ := escaped_reads hescaped
        have hd := next_eq_some.mp hnext
        -- The character that was looked at is the one that is read next.
        obtain rfl : c = d := Option.some.inj (ho.trans hd.head?_eq)
        obtain rfl := of_decide_eq_true hbackslash
        exact stepReads_piece (.escape hescapes hcs) (hd.trans hreads)
    · rw [if_neg hescape] at h
      obtain ⟨d, cur₁, hsatisfy, h⟩ := bind_eq_some.mp h
      obtain ⟨rfl, rfl⟩ := pure_eq_some.mp h
      obtain ⟨htext, hreads⟩ := satisfy_eq_some.mp hsatisfy
      obtain rfl : c = d := Option.some.inj (ho.trans hreads.head?_eq)
      refine stepReads_piece (.plain htext (.inl hblock) fun hescapes hbackslash => ?_) hreads
      exact hescape (by simp [hescapes, hbackslash])

/-- Steps that read pieces up to the delimiter read a text up to its end. -/
theorem loop_reads {step : List Char → Scanner TextStep} {fuel : Nat} {s : String}
    (hstep : ∀ sofar cur r cur', step sofar cur = some (r, cur') →
      StepReads style sofar cur cur' r)
    (h : Scanner.loop step fuel [] cur = some (s, cur')) :
    ∃ ps : List Piece, (∀ p ∈ ps, p.Fits style) ∧
      Reads (Piece.sources ps ++ style.delimiter) cur cur' ∧
      s = String.ofList (Piece.values ps) := by
  -- What has been read so far are pieces that stand for the characters so far.
  refine loop_induction
    (I := fun sofar place => ∃ ps : List Piece, (∀ p ∈ ps, p.Fits style) ∧
      Reads (Piece.sources ps) cur place ∧ sofar.reverse = Piece.values ps)
    (Q := fun s place => ∃ ps : List Piece, (∀ p ∈ ps, p.Fits style) ∧
      Reads (Piece.sources ps ++ style.delimiter) cur place ∧ s = String.ofList (Piece.values ps))
    (fun sofar place r place' hplace hr => ?_) ⟨[], nofun, .refl cur, rfl⟩ h
  obtain ⟨ps, hps, hreads, hsofar⟩ := hplace
  have hread := hstep sofar place r place' hr
  cases r with
  | inl sofar' =>
    obtain ⟨qs, hqs, hreads', rfl⟩ := hread
    refine ⟨ps ++ qs, List.forall_mem_append.mpr ⟨hps, hqs⟩, ?_, ?_⟩
    · rw [Piece.sources_append]
      exact hreads.trans hreads'
    · rw [Piece.values_append, List.reverse_append, List.reverse_reverse, hsofar]
  | inr s =>
    obtain ⟨qs, hqs, hreads', rfl⟩ := hread
    refine ⟨ps ++ qs, List.forall_mem_append.mpr ⟨hps, hqs⟩, ?_, ?_⟩
    · rw [Piece.sources_append, List.append_assoc]
      exact hreads.trans hreads'
    · rw [Piece.values_append, hsofar]

/-- Whether a style has escapes shows in its quote. -/
theorem Style.escapes_eq (style : Style) : style.escapes = decide (style.quote = '"') := by
  rw [Style.quote]
  cases style.escapes <;> rfl

/-- What is read on one line, from the opening delimiter to the closing one, is a literal. -/
theorem lineText_reads {s : String} (hline : style.block = false)
    (h : lineText style.quote cur = some (s, cur')) :
    ∃ l : Literal, Reads l.source cur cur' ∧ s = String.ofList l.value := by
  obtain ⟨_, cur₁, hquote, h⟩ := bind_eq_some.mp h
  obtain ⟨_, _, hremaining, h⟩ := bind_eq_some.mp h
  obtain ⟨-, rfl⟩ := remaining_eq_some.mp hremaining
  rw [← style.escapes_eq] at h
  obtain ⟨ps, hps, hreads, rfl⟩ := loop_reads (fun _ _ _ _ => lineStep_reads hline) h
  -- The opening delimiter has been read, and the loop reads the rest.
  have hopening : Reads style.delimiter cur cur₁ := by
    rw [Style.delimiter, hline]
    exact char_eq_some.mp hquote
  refine ⟨⟨style, [], ps, .inl rfl, hps⟩, ?_, rfl⟩
  rw [Literal.source, Literal.opening, List.append_nil, List.append_assoc]
  exact hopening.trans hreads

/-- What is read over several lines, from the opening delimiters to the closing ones, is a literal.
    A line end behind the opening delimiters does not count. -/
theorem blockText_reads {s : String} (hblock : style.block = true)
    (h : blockText style.quote cur = some (s, cur')) :
    ∃ l : Literal, Reads l.source cur cur' ∧ s = String.ofList l.value := by
  obtain ⟨_, cur₁, hquotes, h⟩ := bind_eq_some.mp h
  obtain ⟨_, cur₂, hnewline, h⟩ := bind_eq_some.mp h
  obtain ⟨_, _, hremaining, h⟩ := bind_eq_some.mp h
  obtain ⟨-, rfl⟩ := remaining_eq_some.mp hremaining
  have hopening : Reads style.delimiter cur cur₁ := by
    rw [Style.delimiter, hblock]
    exact literal_eq_some.mp hquotes
  -- The line end behind the opening delimiters may be missing.
  have htrimmed : ∃ trimmed, (trimmed = [] ∨ (style.block = true ∧ LineEnd trimmed)) ∧
      Reads trimmed cur₁ cur₂ := by
    rcases orElse_eq_some hnewline with hnewline | hnothing
    · obtain ⟨line, hline, hreads⟩ := newline_reads hnewline
      exact ⟨line, .inr ⟨hblock, hline⟩, hreads⟩
    · obtain ⟨-, rfl⟩ := pure_eq_some.mp hnothing
      exact ⟨[], .inl rfl, .refl cur₁⟩
  obtain ⟨trimmed, htrimmed, hreads₂⟩ := htrimmed
  rw [← style.escapes_eq] at h
  obtain ⟨ps, hps, hreads₃, rfl⟩ := loop_reads (fun _ _ _ _ => blockStep_reads hblock) h
  refine ⟨⟨style, trimmed, ps, htrimmed, hps⟩, ?_, rfl⟩
  rw [Literal.source, Literal.opening, List.append_assoc]
  exact (hopening.trans hreads₂).trans hreads₃

/-- What is read as a text is a literal, whose place is kept with its value. -/
theorem text_reads (escapes : Bool) {v : Node}
    (h : text (Style.quote ⟨escapes, false⟩) cur = some (v, cur')) :
    ∃ l : Literal, Reads l.source cur cur' ∧
      v = .text (String.ofList l.value) ⟨cur.pos, cur'.pos⟩ := by
  obtain ⟨start, _, hstart, h⟩ := bind_eq_some.mp h
  obtain ⟨rfl, rfl⟩ := offset_eq_some.mp hstart
  obtain ⟨_, _, hget, h⟩ := bind_eq_some.mp h
  cases hget
  -- Either reader of texts notes the offsets before and behind what it reads.
  have located {p : Scanner String}
      (hp : ∀ s next, p cur = some (s, next) →
        ∃ l : Literal, Reads l.source cur next ∧ s = String.ofList l.value)
      (hrun : (do return .text (← p) ⟨cur.pos, ← Scanner.offset⟩ : Scanner Node) cur =
        some (v, cur')) :
      ∃ l : Literal, Reads l.source cur cur' ∧
        v = .text (String.ofList l.value) ⟨cur.pos, cur'.pos⟩ := by
    obtain ⟨s, next, hs, hrun⟩ := bind_eq_some.mp hrun
    obtain ⟨stop, _, hstop, hrun⟩ := bind_eq_some.mp hrun
    obtain ⟨rfl, rfl⟩ := offset_eq_some.mp hstop
    obtain ⟨rfl, rfl⟩ := pure_eq_some.mp hrun
    obtain ⟨l, hl, rfl⟩ := hp s next hs
    exact ⟨l, hl, rfl⟩
  split at h
  · have hblock (s : String) (next : Cursor)
        (hrun : blockText (Style.quote ⟨escapes, true⟩) cur = some (s, next)) :
        ∃ l : Literal, Reads l.source cur next ∧ s = String.ofList l.value :=
      blockText_reads rfl hrun
    exact located hblock h
  · exact located (fun _ _ => lineText_reads rfl) h

end Retarget.Toml
