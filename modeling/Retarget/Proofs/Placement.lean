import Retarget.Proofs.Literals

/-!
# Where the texts of a document stand

Every text in a document that has been read is that of a literal in the source, and has its bytes
as place. The literals come in where a value is read; everything else moves values about, between
arrays, tables and the entries of the document, and makes no texts.

## Key results

- `Toml.Entries.placed_modifyAt`: changes of entries
- `Toml.yields_value`: values
- `Toml.placed_of_parse?`: documents
-/

namespace Retarget.Toml

open Scanner

/-- Whether a text and its place are those of a literal in a document. -/
def AtLiteral (doc : List Char) (s : String) (span : Span) : Prop :=
  ∃ (l : Literal) (before after : List Char), doc = before ++ l.source ++ after ∧
    s = String.ofList l.value ∧ span = ⟨byteSize before, byteSize (before ++ l.source)⟩

/-- Whether a value is a text, or holds it somewhere. -/
inductive Node.Holds (s : String) (span : Span) : Node → Prop where
  | text : Holds s span (.text s span)
  | item {items : List Node} {v : Node} (hv : v ∈ items) (h : Holds s span v) :
      Holds s span (.array items)
  | entry {origin : Origin} {es : Entries} {k : String} {v : Node} (hv : (k, v) ∈ es)
      (h : Holds s span v) : Holds s span (.table origin es)
  | earlier {tables : List Entries} {last es : Entries} {k : String} {v : Node}
      (hes : es ∈ tables) (hv : (k, v) ∈ es) (h : Holds s span v) :
      Holds s span (.tables tables last)
  | last {tables : List Entries} {es : Entries} {k : String} {v : Node} (hv : (k, v) ∈ es)
      (h : Holds s span v) : Holds s span (.tables tables es)

/-- Whether all texts in a value are those of literals. -/
def Node.Placed (doc : List Char) (v : Node) : Prop :=
  ∀ s span, v.Holds s span → AtLiteral doc s span

/-- Whether all texts in the values of entries are those of literals. -/
def Entries.Placed (doc : List Char) (es : Entries) : Prop := ∀ k v, (k, v) ∈ es → v.Placed doc

variable {doc : List Char}

/-! ## Values -/

namespace Node

/-- The texts of an array are those of its items. -/
theorem placed_array {items : List Node} :
    (Node.array items).Placed doc ↔ ∀ v ∈ items, v.Placed doc := by
  constructor
  · exact fun h v hv s span hs => h s span (.item hv hs)
  · intro h s span hs
    cases hs with
    | item hv hs => exact h _ hv s span hs

/-- The texts of a table are those of its entries. -/
theorem placed_table {origin : Origin} {es : Entries} :
    (Node.table origin es).Placed doc ↔ Entries.Placed doc es := by
  constructor
  · exact fun h k v hv s span hs => h s span (.entry hv hs)
  · intro h s span hs
    cases hs with
    | entry hv hs => exact h _ _ hv s span hs

/-- The texts of an array of tables are those of the earlier tables and of the last. -/
theorem placed_tables {tables : List Entries} {last : Entries} :
    (Node.tables tables last).Placed doc ↔
      (∀ es ∈ tables, Entries.Placed doc es) ∧ Entries.Placed doc last := by
  constructor
  · intro h
    exact ⟨fun es hes k v hv s span hs => h s span (.earlier hes hv hs),
      fun k v hv s span hs => h s span (.last hv hs)⟩
  · rintro ⟨htables, hlast⟩ s span hs
    cases hs with
    | earlier hes hv hs => exact htables _ hes _ _ hv s span hs
    | last hv hs => exact hlast _ _ hv s span hs

/-- No word stands for a text. -/
theorem placed_of_scalar? {cs : List Char} {v : Node} (h : scalar? cs = some v) :
    v.Placed doc := by
  intro s span hs
  -- Truth values, dates, integers and reals: none of them holds a text.
  unfold scalar? at h
  split at h
  · cases h
    cases hs
  · split at h
    · cases h
      cases hs
    · split at h
      · cases h
        cases hs
      · split at h <;> cases h <;> cases hs

end Node

/-! ## Changes of entries -/

namespace Entries

variable {es : Entries} {key : String} {v : Node}

theorem placed_nil : Placed doc [] := nofun

/-- Further entries bring their own texts and no others. -/
theorem Placed.append {es' : Entries} (h : Placed doc es) (h' : Placed doc es') :
    Placed doc (es ++ es') := by
  intro k w hw
  rcases List.mem_append.mp hw with hw | hw
  · exact h k w hw
  · exact h' k w hw

/-- A single entry has the texts of its value. -/
theorem placed_singleton (h : v.Placed doc) : Placed doc [(key, v)] := by
  intro k w hw
  obtain ⟨rfl, rfl⟩ := Prod.mk.inj (List.mem_singleton.mp hw)
  exact h

/-- An entry whose value is replaced has the texts of the new value. -/
theorem Placed.replace (h : Placed doc es) (hv : v.Placed doc) :
    Placed doc (es.replace key v) := by
  intro k w hw
  obtain ⟨⟨k', w'⟩, hmem, heq⟩ := List.mem_map.mp hw
  dsimp only at heq
  -- The entry of this key has the new value, and every other is as it was.
  split at heq
  · cases heq
    exact hv
  · cases heq
    exact h k w hmem

/-- Removing an entry adds no text. -/
theorem Placed.remove (h : Placed doc es) : Placed doc (es.remove key) :=
  fun k w hw => h k w (List.mem_filter.mp hw).1

/-- The value of an entry has no other texts than the entries. -/
theorem Placed.lookup (h : Placed doc es) (hv : es.lookup key = some v) : v.Placed doc := by
  obtain ⟨before, after, rfl, -⟩ := List.lookup_eq_some_iff.mp hv
  exact h key v (by simp)

/-- Entries stay placed if what is changed at the end of the path does. -/
theorem placed_modifyAt {dotted : Bool} {change : Origin → Entries → Option Entries}
    (hchange : ∀ origin es es', Placed doc es → change origin es = some es' → Placed doc es')
    {path : List String} {origin : Origin} {es' : Entries} (h : Placed doc es)
    (hrun : modifyAt dotted change path origin es = some es') : Placed doc es' := by
  -- Induction on the path: the entries at its end are changed, and on the way back every table is
  -- put into the place where it was found.
  induction path generalizing origin es es' with
  | nil => exact hchange origin es es' h hrun
  | cons key path ih =>
    rw [modifyAt] at hrun
    split at hrun
    · -- A table that is missing is made, and has nothing but what is put into it.
      obtain ⟨sub, hsub, hrun⟩ := Option.bind_eq_some_iff.mp hrun
      obtain rfl := Option.some.inj hrun
      exact h.append (placed_singleton (Node.placed_table.mpr (ih placed_nil hsub)))
    · -- The path goes on in the last table of an array.
      rename_i tables last hlookup
      obtain ⟨sub, hsub, hrun⟩ := Option.bind_eq_some_iff.mp hrun
      obtain rfl := Option.some.inj hrun
      obtain ⟨htables, hlast⟩ := Node.placed_tables.mp (h.lookup hlookup)
      exact h.replace (Node.placed_tables.mpr ⟨htables, ih hlast hsub⟩)
    · -- The path goes on in a table, unless it is closed to it.
      rename_i tableOrigin sub hlookup
      split at hrun
      · cases hrun
      · obtain ⟨sub', hsub, hrun⟩ := Option.bind_eq_some_iff.mp hrun
        obtain rfl := Option.some.inj hrun
        have hsub' := ih (Node.placed_table.mp (h.lookup hlookup)) hsub
        exact h.replace (Node.placed_table.mpr hsub')
    · cases hrun

variable {path : List String} {es' : Entries}

/-- An assignment adds the texts of its value. -/
theorem placed_put (h : Placed doc es) (hv : v.Placed doc) (hrun : es.put path key v = some es') :
    Placed doc es' := by
  refine placed_modifyAt (fun origin sub sub' hsub hchange => ?_) h hrun
  -- A table that dotted keys did not make, or a key that is there already, is not assigned to.
  split at hchange
  · cases hchange
  · split at hchange
    · cases hchange
    · obtain rfl := Option.some.inj hchange
      exact hsub.append (placed_singleton hv)

/-- The header of a table adds no text, whether the table is new or was made by a longer path
    before. -/
theorem placed_declare (h : Placed doc es) (hrun : es.declare path key = some es') :
    Placed doc es' := by
  refine placed_modifyAt (fun origin sub sub' hsub hchange => ?_) h hrun
  split at hchange
  · obtain rfl := Option.some.inj hchange
    exact hsub.append (placed_singleton (Node.placed_table.mpr placed_nil))
  · -- A table that a longer path has made moves to the end with what it has.
    rename_i inner hlookup
    obtain rfl := Option.some.inj hchange
    have hinner := Node.placed_table.mp (hsub.lookup hlookup)
    exact hsub.remove.append (placed_singleton (Node.placed_table.mpr hinner))
  · cases hchange

/-- The header of an array of tables adds an empty table and no text. What was its last table is
    then an earlier one. -/
theorem placed_append (h : Placed doc es) (hrun : es.append path key = some es') :
    Placed doc es' := by
  refine placed_modifyAt (fun origin sub sub' hsub hchange => ?_) h hrun
  split at hchange
  · obtain rfl := Option.some.inj hchange
    exact hsub.append (placed_singleton (Node.placed_tables.mpr ⟨nofun, placed_nil⟩))
  · rename_i tables last hlookup
    obtain rfl := Option.some.inj hchange
    obtain ⟨htables, hlast⟩ := Node.placed_tables.mp (hsub.lookup hlookup)
    refine hsub.replace (Node.placed_tables.mpr ⟨?_, placed_nil⟩)
    exact List.forall_mem_append.mpr ⟨htables, by simpa using hlast⟩
  · cases hchange

/-- An assignment below the current header adds the texts of its value. -/
theorem placed_putUnder {current : List String} (h : Placed doc es) (hv : v.Placed doc)
    (hrun : es.putUnder current path key v = some es') : Placed doc es' :=
  placed_modifyAt (fun _ _ _ hsub hchange => placed_put hsub hv hchange) h hrun

end Entries

/-! ## Readers -/

/-- Skipping blanks stays in the document. -/
theorem stays_blanks : Stays doc blanks :=
  (Stays.takeWhile _).bind fun _ => Stays.pure ()

/-- Reading a line end stays in the document. -/
theorem stays_newline : Stays doc newline :=
  (Stays.accept _).bind fun _ => Stays.char _

/-- Reading a line end or the end of all stays in the document. -/
theorem stays_lineEnd : Stays doc lineEnd := Yields.orElse Stays.atEnd stays_newline

/-- Skipping a comment stays in the document. -/
theorem stays_comment : Stays doc comment :=
  (Stays.char _).bind fun _ => (Stays.takeWhile _).bind fun _ => Stays.pure ()

/-- Reading what may follow a value on its line stays in the document. -/
theorem stays_trailing : Stays doc trailing := by
  refine stays_blanks.bind fun _ => Stays.peek?.bind fun o => ?_
  split
  · exact stays_comment.bind fun _ => stays_lineEnd
  · exact stays_lineEnd

/-- Skipping blanks, line ends and comments inside an array stays in the document. -/
theorem stays_gap : Stays doc gap := by
  refine Stays.remaining.bind fun _ => Stays.loop fun _ => Stays.peek?.bind fun o => ?_
  -- The next character tells what is skipped, if anything.
  split
  · exact stays_comment.bind fun _ => Stays.pure _
  · exact stays_newline.bind fun _ => Stays.pure _
  · exact stays_newline.bind fun _ => Stays.pure _
  · exact stays_blanks.bind fun _ => Stays.pure _
  · exact stays_blanks.bind fun _ => Stays.pure _
  · exact Stays.pure _

/-- Keys may be written as texts on one line. -/
theorem stays_lineText (escapes : Bool) :
    Stays doc (lineText (Style.quote ⟨escapes, false⟩)) :=
  stays_of_reads fun _ _ _ h => by
    obtain ⟨l, hl, -⟩ := lineText_reads rfl h
    exact ⟨l.source, hl⟩

/-- Reading one segment of a key, quoted or bare, stays in the document. -/
theorem stays_simpleKey : Stays doc simpleKey := by
  refine Stays.peek?.bind fun o => ?_
  split
  · exact stays_lineText true
  · exact stays_lineText false
  · exact (Stays.takeWhile1 _).bind fun _ => Stays.pure _

/-- Reading a dotted key stays in the document. -/
theorem stays_key : Stays doc key := by
  have hstep (segments : List String) : Stays doc (keyStep segments) := by
    refine stays_blanks.bind fun _ => stays_simpleKey.bind fun _ => stays_blanks.bind fun _ => ?_
    refine (Stays.accept _).bind fun b => ?_
    split <;> exact Stays.pure _
  refine Stays.remaining.bind fun _ => (Stays.loop hstep).bind fun segments => ?_
  split
  · exact Yields.failure
  · split
    · exact Stays.pure _
    · exact Yields.failure

/-- Words are numbers, dates and truth values, and have no texts. -/
theorem yields_word : Yields doc word (Node.Placed doc) := by
  refine (Stays.takeWhile1 _).bind fun first => ?_
  split
  · -- A date may go on with a time behind a blank.
    have hnext : Stays doc ((do
        char ' '
        return first ++ ' ' :: (← takeWhile1 isWordChar)) <|> pure first) :=
      Yields.orElse ((Stays.char _).bind fun _ => (Stays.takeWhile1 _).bind fun _ => Stays.pure _)
        (Stays.pure _)
    refine hnext.bind fun whole => ?_
    dsimp only
    split
    · exact Yields.pure (Node.placed_of_scalar? ‹_›)
    · exact Yields.failure
  · refine (Stays.pure first).bind fun whole => ?_
    dsimp only
    split
    · exact Yields.pure (Node.placed_of_scalar? ‹_›)
    · exact Yields.failure

/-- The place of a literal in a document is that of the cursor before and behind it. -/
theorem yields_text (escapes : Bool) :
    Yields doc (text (Style.quote ⟨escapes, false⟩)) (Node.Placed doc) := by
  intro cur v cur' hcur h
  obtain ⟨l, hl, rfl⟩ := text_reads escapes h
  refine ⟨hcur.reads hl, ?_⟩
  -- What is before the cursor, the literal and what is left make up the document.
  obtain ⟨before, hdoc, hpos⟩ := hcur
  dsimp only at hdoc hpos
  intro s span hs
  cases hs
  refine ⟨l, before, cur'.rest, ?_, rfl, ?_⟩
  · rw [hdoc, hl.1, List.append_assoc]
  · rw [hl.2, hpos, byteSize_append, Nat.zero_add]

/-- A value that is no array or table is a text or a word. -/
theorem yields_simpleValue : Yields doc simpleValue (Node.Placed doc) := by
  refine Stays.peek?.bind fun o => ?_
  split
  · exact yields_text true
  · exact yields_text false
  · exact yields_word

/-- The items of an array up to its end. -/
theorem yields_itemStep {item : Scanner Node} (hitem : Yields doc item (Node.Placed doc))
    {items : List Node} (hitems : ∀ v ∈ items, v.Placed doc) :
    Yields doc (itemStep item items)
      (Sum.elim (∀ v ∈ ·, v.Placed doc) (∀ v ∈ ·, v.Placed doc)) := by
  refine stays_gap.bind fun _ => (Stays.accept _).bind fun closed => ?_
  split
  · exact Yields.pure (by simpa using hitems)
  · refine hitem.bind fun v hv => stays_gap.bind fun _ => (Stays.accept _).bind fun more => ?_
    -- The items are kept in reverse until the array is closed.
    have hall : ∀ w ∈ v :: items, w.Placed doc := List.forall_mem_cons.mpr ⟨hv, hitems⟩
    split
    · exact Yields.pure hall
    · refine (Stays.char _).bind fun _ => Yields.pure ?_
      exact fun w hw => hall w (List.mem_reverse.mp hw)

/-- The entries of an inline table up to its end. -/
theorem yields_entryStep {item : Scanner Node} (hitem : Yields doc item (Node.Placed doc))
    {es : Entries} (hes : es.Placed doc) :
    Yields doc (entryStep item es) (Sum.elim (Entries.Placed doc) (Entries.Placed doc)) := by
  refine stays_key.bind fun (path, last) => (Stays.char _).bind fun _ => ?_
  refine stays_blanks.bind fun _ => ?_
  refine hitem.bind fun v hv => stays_blanks.bind fun _ => ?_
  split
  · exact Yields.failure
  · rename_i es' hput
    have hes' := Entries.placed_put hes hv hput
    refine (Stays.accept _).bind fun more => ?_
    split
    · exact Yields.pure hes'
    · exact (Stays.char _).bind fun _ => Yields.pure hes'

/-- The texts of a value are those of literals, whatever its nesting. -/
theorem yields_value (levels : Nat) : Yields doc (value levels) (Node.Placed doc) := by
  induction levels with
  | zero => exact yields_simpleValue
  | succ levels ih =>
    -- Items and entries are values of one level less, and do not depend on the loop around them.
    refine (Stays.accept _).bind fun isArray => ?_
    split
    · -- An array: the invariant of its loop is that all items so far are placed.
      refine Stays.remaining.bind fun _ => ?_
      refine (Yields.loop (fun _ => yields_itemStep ih) (by simp)).bind fun items hitems => ?_
      exact Yields.pure (Node.placed_array.mpr hitems)
    · refine (Stays.accept _).bind fun isTable => ?_
      split
      · -- An inline table, which may be empty.
        refine stays_blanks.bind fun _ => (Stays.accept _).bind fun isEmpty => ?_
        split
        · exact Yields.pure (Node.placed_table.mpr Entries.placed_nil)
        · refine Stays.remaining.bind fun _ => ?_
          refine (Yields.loop (fun _ => yields_entryStep ih) Entries.placed_nil).bind fun es h => ?_
          exact Yields.pure (Node.placed_table.mpr h)
      · exact yields_simpleValue

/-! ## Documents -/

/-- Whether all texts in what has been read of a document are those of literals. -/
def Draft.Placed (doc : List Char) (d : Draft) : Prop := d.entries.Placed doc

/-- A change of the entries can be refused. One that is made has placed texts if the changed entries
    do. -/
theorem yields_update {current : List String} {o : Option Entries}
    (h : ∀ es, o = some es → es.Placed doc) :
    Yields doc (Draft.update current o) (Draft.Placed doc) := by
  cases o with
  | none => exact Yields.failure
  | some es => exact Yields.pure (h es rfl)

/-- A header brings no texts into the document. -/
theorem yields_header {d : Draft} (hd : d.Placed doc) :
    Yields doc (header d) (Draft.Placed doc) := by
  refine (Stays.char _).bind fun _ => (Stays.accept _).bind fun isArray => ?_
  split
  · refine stays_key.bind fun (path, last) => (Stays.literal _).bind fun _ => ?_
    exact stays_trailing.bind fun _ => yields_update fun es => Entries.placed_append hd
  · refine stays_key.bind fun (path, last) => (Stays.char _).bind fun _ => ?_
    exact stays_trailing.bind fun _ => yields_update fun es => Entries.placed_declare hd

/-- A line that assigns a value brings the texts of that value. -/
theorem yields_assignment {d : Draft} (hd : d.Placed doc) :
    Yields doc (assignment d) (Draft.Placed doc) := by
  refine stays_key.bind fun (path, last) => (Stays.char _).bind fun _ => ?_
  refine stays_blanks.bind fun _ => ?_
  refine (yields_value _).bind fun v hv => stays_trailing.bind fun _ => ?_
  exact yields_update fun es => Entries.placed_putUnder hd hv

/-- One line of a document: blank, a comment, a header or an assignment. -/
theorem yields_lineOf {d : Draft} (hd : d.Placed doc) :
    Yields doc (lineOf d) (Sum.elim (Draft.Placed doc) (Entries.Placed doc)) := by
  refine stays_blanks.bind fun _ => Stays.peek?.bind fun o => ?_
  -- The first character behind the blanks tells what kind of line it is.
  split
  · exact Yields.pure hd
  · exact stays_comment.bind fun _ => stays_lineEnd.bind fun _ => Yields.pure hd
  · exact stays_newline.bind fun _ => Yields.pure hd
  · exact stays_newline.bind fun _ => Yields.pure hd
  · exact (yields_header hd).bind fun d' hd' => Yields.pure hd'
  · exact (yields_assignment hd).bind fun d' hd' => Yields.pure hd'

/-- The texts of all entries are those of literals when the whole document has been read. -/
theorem yields_document : Yields doc document (Entries.Placed doc) := by
  refine (Stays.accept _).bind fun _ => Stays.remaining.bind fun _ => ?_
  -- The lines are a loop, with the entries so far as its state.
  exact Yields.loop (fun _ => yields_lineOf) Entries.placed_nil

/-- The texts of a document are those of its literals. -/
theorem placed_of_parse? {s : String} {entries : Entries} (h : parse? s = some entries) :
    entries.Placed s.toList := by
  unfold parse? runAll at h
  split at h
  · rename_i es cur hrun
    obtain rfl := Option.some.inj h
    have hstart : In s.toList (Cursor.ofString s) := ⟨[], .refl _⟩
    -- The scan of the document, and the check that nothing is left.
    obtain ⟨es', cur', hes, hrun⟩ := bind_eq_some.mp hrun
    obtain ⟨_, cur'', hend, hrun⟩ := bind_eq_some.mp hrun
    obtain ⟨rfl, rfl⟩ := pure_eq_some.mp hrun
    exact (yields_document _ _ _ hstart hes).2
  · cases h

end Retarget.Toml
